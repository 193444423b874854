/-!
# Access to ledger files

What a connection may do to its file, and which files beside it take part.  Beside a ledger there may
be the journal of a transaction, which holds what was there before; the log, which holds what is new;
the index of the log; and a mark that says that somebody is at work.

## Main definitions

* `Access` — what a connection may do, and how.
-/

namespace AuditChain

/-- What a connection makes of the log of a ledger. -/
inductive LogUse where
  /-- It keeps one. -/
  | kept
  /-- It knows of none, and cannot use a ledger that has one. -/
  | refused
  /-- It takes the file for all there is. -/
  | ignored
  deriving DecidableEq, Repr

/-- How a connection keeps others out while it writes. -/
inductive LockUse where
  /-- By a lock on the file. -/
  | held
  /-- By a mark beside the file. -/
  | marked
  /-- Not at all. -/
  | none
  deriving DecidableEq, Repr

/-- Where a connection keeps the index of the log. -/
inductive IndexUse where
  /-- In a file beside the ledger. -/
  | written
  /-- In a file that is only read, and must be there. -/
  | read
  /-- In memory. -/
  | remembered
  deriving DecidableEq, Repr

/-- What a connection may do to its file, and how. -/
structure Access where
  /-- It may make the file. -/
  mayCreate : Bool := true
  /-- It may write to the file. -/
  mayWrite : Bool := true
  /-- What it makes of the log. -/
  log : LogUse := .kept
  /-- How it keeps others out. -/
  locks : LockUse := .held
  /-- Where it keeps the index. -/
  index : IndexUse := .written
  /-- The path of a file whose permissions a new file gets; it must be there. -/
  pattern : Option String := none
  deriving DecidableEq, Repr

end AuditChain
