import AuditChain.Error

/-!
# The journal

Programs and stores note in a journal what they have come to.  What a note says changes no answer, but
whoever keeps the journal may crash at one: a journal can be set to crash at the next note of an
insert.  That note is then left unfinished, the next one is written behind it on the same line, and a
line that tells of an insert makes a journal crash that has been set to it again.

## Main definitions

* `Note` — what can be noted.
* `Journal` — the state of a journal.
* `Journal.write` — a note written.
-/

namespace AuditChain

/-- What can be noted. -/
inductive Note where
  /-- A ledger file has been opened. -/
  | opened
  /-- A store has written an entry. -/
  | inserted
  /-- An event has been appended. -/
  | committed
  /-- An event had been appended before. -/
  | known
  /-- An append was cancelled. -/
  | cancelled
  /-- An append will be tried again. -/
  | retrying
  /-- An append was given up. -/
  | givenUp
  /-- A batch of entries has been read and will be verified. -/
  | batchRead
  /-- A row that was to be verified is no entry. -/
  | undecodable
  /-- A verification has come to its finding. -/
  | verified
  /-- A page has been read. -/
  | pageRead
  /-- A slice has been exported. -/
  | exported
  deriving DecidableEq, Repr

/-- The state of a journal. -/
structure Journal where
  /-- The journal is to crash at the next note of an insert. -/
  armed : Bool := false
  /-- The last line tells of an insert and was left unfinished. -/
  unfinished : Bool := false
  deriving DecidableEq, Repr

namespace Journal

/-- Writes a note. -/
def write (j : Journal) (n : Note) : Except Crash Unit × Journal :=
  if j.armed && (n == .inserted || j.unfinished) then
    (.error .brokenInsert, { armed := false, unfinished := true })
  else (.ok (), { j with unfinished := false })

end Journal

end AuditChain
