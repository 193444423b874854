import AuditChain.Entry
import AuditChain.Verify.Report

/-!
# The cursor of a verification

A cursor walks along a chain.  It knows which sequence must come next and which hash the next
entry must name; and of each entry it checks, in this order, the sequence, the link and the hash.

## Main definitions

* `Cursor`, `Cursor.check` — the three checks on one entry.
* `Walk`, `Walk.feed` — a cursor that counts, fed with entries up to the first violation.
* `verifyEntries` — the report on a list of entries.
* `verifySnapshot` — the report on an exported slice.
-/

namespace AuditChain.Verify

/-- What the next entry of a walk must look like. -/
structure Cursor where
  /-- Its sequence. -/
  next : UInt64
  /-- Its previous hash; a walk that starts inside the chain takes the first link on trust. -/
  expected : Option String
  deriving DecidableEq, Repr

namespace Cursor

/-- The cursor of a walk from a sequence: from zero the genesis hash is expected. -/
def startingAt (first : UInt64) : Cursor :=
  ⟨first, if first = 0 then some genesisHash else none⟩

/-- The sequence after one; after the greatest sequence it stays. -/
def following (sequence : UInt64) : UInt64 :=
  if sequence = maxSequence then maxSequence else sequence + 1

/-- Checks an entry and moves past it. -/
def check (c : Cursor) (e : Entry) : Except Violation Cursor :=
  if e.sequence ≠ c.next then .error (.sequenceGap e.sequence)
  else if c.expected.getD e.previousHash ≠ e.previousHash then .error (.brokenLink e.sequence)
  else if e.recompute ≠ e.hash then .error (.hashMismatch e.sequence)
  else .ok ⟨following e.sequence, some e.hash⟩

end Cursor

/-- A walk along a range of a chain. -/
structure Walk where
  /-- What comes next. -/
  cursor : Cursor
  /-- The start of the range. -/
  first : UInt64
  /-- The end of the range. -/
  last : UInt64
  /-- How many entries have passed. -/
  checked : Nat := 0
  /-- The sequence of the last entry that passed. -/
  lastVerified : Option UInt64 := none
  deriving DecidableEq, Repr

namespace Walk

/-- The walk along a range before its first entry. -/
def start (first last : UInt64) : Walk :=
  { cursor := Cursor.startingAt first, first, last }

/-- Checks one entry and counts it. -/
def step (w : Walk) (e : Entry) : Except Violation Walk :=
  match w.cursor.check e with
  | .error v => .error v
  | .ok cursor =>
    .ok { w with cursor, checked := w.checked + 1, lastVerified := some e.sequence }

/-- The report on a walk that ended with a finding. -/
def report (w : Walk) (finding : Finding) : Report :=
  ⟨w.first, w.last, w.checked, w.lastVerified, finding⟩

/-- Checks entries one after another.  The walk ends with a report at the first violation. -/
def feed (w : Walk) : List Entry → Except Report Walk
  | [] => .ok w
  | e :: es =>
    match w.step e with
    | .error v => .error (w.report (.violated v))
    | .ok w => w.feed es

/-- The report of a walk that has met no violation, or the one it ended with. -/
def conclude : Except Report Walk → Report
  | .error report => report
  | .ok w => w.report .intact

/-- Feeding in two parts is feeding the whole. -/
theorem feed_append (w : Walk) (xs ys : List Entry) :
    w.feed (xs ++ ys) = (w.feed xs).bind fun w => w.feed ys := by
  induction xs generalizing w with
  | nil => rfl
  | cons e es ih =>
    simp only [List.cons_append, feed]
    cases w.step e with
    | error v => rfl
    | ok w => exact ih w

end Walk

/-- The report on entries that are all there is in a range. -/
def verifyEntries (first last : UInt64) (entries : List Entry) : Report :=
  Walk.conclude ((Walk.start first last).feed entries)

/-- The report on an exported slice, whose range runs from its first entry to its last.  The
terminal hash is not looked at. -/
def verifySnapshot (s : Snapshot) : Report :=
  let first := (s.entries.head?.map Entry.sequence).getD 0
  let last := (s.entries.getLast?.map Entry.sequence).getD first
  verifyEntries first last s.entries

end AuditChain.Verify
