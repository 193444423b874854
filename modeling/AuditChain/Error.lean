import AuditChain.Event

/-!
# Errors

Two vocabularies.  Stores report *store errors*: what went wrong with a row or a connection.
Callers of the engine, the verifier and the query facade see *audit errors*, which take the place
of store errors.  A *crash* is neither: the operation stops in the middle, without an
answer.

## Main definitions

* `UniqueConstraint`, `StoreError` — what stores report.
* `AuditError` — what callers see.
* `StoreError.toAuditError` — what callers see of a store error on paths that do not retry.
* `Crash` — an operation that stops without an answer.
-/

namespace AuditChain

/-- Which uniqueness constraint rejected an insert. -/
inductive UniqueConstraint where
  /-- An entry with this sequence is stored. -/
  | sequence
  /-- An entry with this key is stored. -/
  | dedupKey
  deriving DecidableEq, Repr

/-- The name of a constraint. -/
def UniqueConstraint.name : UniqueConstraint → String
  | .sequence => "sequence"
  | .dedupKey => "dedup_key"

/-- What a store reports. -/
inductive StoreError where
  /-- Busy, locked or unreachable; the call may be tried again. -/
  | unavailable (reason : String)
  /-- An insert collided with a stored entry. -/
  | uniqueViolation (constraint : UniqueConstraint)
  /-- A stored row is no entry; its sequence is given if that much was readable. -/
  | corrupt (sequence : Option UInt64) (reason : String)
  /-- The store failed in any other way. -/
  | backend (reason : String)
  deriving DecidableEq, Repr

/-- The wording of a store error. -/
def StoreError.message : StoreError → String
  | .unavailable reason => s!"store unavailable: {reason}"
  | .uniqueViolation constraint => s!"unique constraint violated on {constraint.name}"
  | .corrupt _ reason => s!"corrupt row: {reason}"
  | .backend reason => s!"store backend failure: {reason}"

/-- What callers see. -/
inductive AuditError where
  /-- The store stayed unavailable; the event must be delivered again. -/
  | transientStorage (reason : String)
  /-- Every attempt lost the race for its sequence. -/
  | chainConflict (dedupKey : DedupKey) (attempts : Nat)
  /-- The caller cancelled before the commit. -/
  | cancelled
  /-- Any other failure of the store, undecodable rows included. -/
  | storage (reason : String)
  /-- The range ends before it begins. -/
  | invalidRange (first last : UInt64)
  /-- There is no such page. -/
  | invalidPage (reason : String)
  /-- The configuration cannot be used. -/
  | config (reason : String)
  deriving DecidableEq, Repr

/-- The wording of an audit error. -/
def AuditError.message : AuditError → String
  | .transientStorage reason => s!"transient storage failure: {reason}"
  | .chainConflict dedupKey attempts =>
    s!"chain conflict: event '{dedupKey.text}' could not claim a sequence after {attempts} attempts"
  | .cancelled => "append cancelled before commit"
  | .storage reason => s!"storage error: {reason}"
  | .invalidRange first last => s!"invalid range: from {first} is greater than to {last}"
  | .invalidPage reason => s!"invalid page request: {reason}"
  | .config reason => s!"configuration error: {reason}"

/-- A store error on a path that does not retry: unavailability is transient, all else is a
storage failure. -/
def StoreError.toAuditError : StoreError → AuditError
  | .unavailable reason => .transientStorage reason
  | e => .storage e.message

/-- Why an operation stopped without an answer. -/
inductive Crash where
  /-- The sequence after the greatest one was asked for. -/
  | sequenceOverflow
  /-- A store stopped right after it had written an entry. -/
  | brokenInsert
  /-- A text was to be laid out in a field that is too wide. -/
  | fieldRange
  deriving DecidableEq, Repr

/-- The wording of a crash. -/
def Crash.message : Crash → String
  | .sequenceOverflow => "attempt to add with overflow"
  | .brokenInsert => "broken insert"
  | .fieldRange => "Formatting argument out of range"

end AuditChain
