/-!
# Findings of a verification

A chain that was tampered with is a finding, not an error: the report names the first entry that
fails a check.

## Main definitions

* `Violation` — which check an entry failed, and at which sequence.
* `Finding` — intact, or the first violation.
* `Report` — the range, how far the verification came, and the finding.
-/

namespace AuditChain.Verify

/-- The first violation found in a range. -/
inductive Violation where
  /-- The sequence does not follow the one before, or is not the start of the range. -/
  | sequenceGap (sequence : UInt64)
  /-- The previous hash is not the hash of the entry before. -/
  | brokenLink (sequence : UInt64)
  /-- The hash is not the one that the fields call for. -/
  | hashMismatch (sequence : UInt64)
  deriving DecidableEq, Repr

namespace Violation

/-- The sequence at which a violation was found. -/
def sequence : Violation → UInt64
  | .sequenceGap s => s
  | .brokenLink s => s
  | .hashMismatch s => s

/-- The wording of a violation. -/
def message : Violation → String
  | .sequenceGap s => s!"sequence gap at {s}"
  | .brokenLink s => s!"broken link at {s}"
  | .hashMismatch s => s!"hash mismatch at {s}"

end Violation

/-- What a verification found. -/
inductive Finding where
  /-- Every entry of the range passed every check. -/
  | intact
  /-- The verification stopped at this violation. -/
  | violated (v : Violation)
  deriving DecidableEq, Repr

/-- The wording of a finding. -/
def Finding.message : Finding → String
  | .intact => "INTACT"
  | .violated v => s!"VIOLATED ({v.message})"

/-- The result of verifying the entries from `first` to `last`. -/
structure Report where
  /-- The start of the range. -/
  first : UInt64
  /-- The end of the range. -/
  last : UInt64
  /-- How many entries passed before the verification ended. -/
  entriesChecked : Nat
  /-- The sequence of the last entry that passed. -/
  lastVerified : Option UInt64
  /-- What was found. -/
  finding : Finding
  deriving DecidableEq, Repr

namespace Report

/-- No violation was found. -/
def isIntact (r : Report) : Bool :=
  r.finding == .intact

/-- The violation found. -/
def violation? (r : Report) : Option Violation :=
  match r.finding with
  | .intact => none
  | .violated v => some v

end Report

end AuditChain.Verify
