import AuditChain.Ledger
import AuditChain.Shop.Catalog

/-!
# Many writers at once

As many writers as there are events, each with an event of its own, append to one ledger.  Which
of them comes first is left open; how many entries there are in the end, and that they form one
chain, is not.

## Main definitions

* `Shop.race` — writers that take turns.
* `Shop.writers` — the scenario on a ledger.
* `Shop.writersText` — the account of it.
-/

namespace AuditChain.Shop

/-- How many writers there are, unless told otherwise. -/
def defaultWriters : Nat := 16

/-- What the scenario shows. -/
structure WritersSummary where
  /-- The number of writers. -/
  workers : Nat
  /-- The number of entries in the end. -/
  chainLength : Nat
  /-- The verification of the chain. -/
  report : Verify.Report
  deriving DecidableEq, Repr

/-- Each writer appends its event.  What becomes of each is told in the order of the events; one
that crashes does not keep the others from their turns. -/
def race {σ : Type} [Responder σ] (p : RetryPolicy) :
    List Event → σ → List (Except Crash (Except AuditError Outcome)) × σ
  | [], s => ([], s)
  | event :: events, s =>
    let (result, s) := (submit p event).runOn s
    let (results, s) := race p events s
    (result :: results, s)

/-- Why a writer has no entry, if it has none. -/
def failureOf : Except Crash (Except AuditError Outcome) → Option AuditError
  | .error _ => some (.storage "writer thread panicked")
  | .ok (.error e) => some e
  | .ok (.ok _) => none

/-- The policy with at least so many attempts. -/
def withAttempts (p : RetryPolicy) (workers : Nat) : RetryPolicy :=
  { p with maxAttempts := max p.maxAttempts (UInt32.ofNat (min workers 4294967295)) }

/-- Counts and verifies the chain once the writers have come to rest. -/
def writersSummary {σ : Type} (l : Ledger σ) (workers : Nat) :
    LedgerProgram (Except AuditError WritersSummary) :=
  countEntries.bind fun
  | .error e => .done (.error e)
  | .ok chainLength =>
    let verification :=
      if chainLength = 0 then l.verifyAll else l.verify 0 (UInt64.ofNat (chainLength - 1))
    verification.bind fun
    | .error e => .done (.error e)
    | .ok report => .done (.ok ⟨workers, chainLength, report⟩)

/-- Lets so many writers append an event each. -/
def writers {σ : Type} [Responder σ] (l : Ledger σ) (workers : Nat) :
    Except Crash (Except AuditError WritersSummary) × Ledger σ :=
  let (results, store) := race (withAttempts l.policy workers) (traffic "checkout" workers) l.store
  let l := { l with store }
  match results.findSome? failureOf with
  | some e => (.ok (.error e), l)
  | none => l.run (writersSummary l workers)

/-- The account of the scenario. -/
def writersText (s : WritersSummary) : List String :=
  [s!"  Writers:                {s.workers} (split across 2 engines)",
    s!"  Chain length:           {s.chainLength}",
    s!"  Entries verified:       {s.report.entriesChecked}",
    s!"  Chain verification:     {s.report.finding.message}",
    "",
    "  Scenario 3 complete.",
    ""]

end AuditChain.Shop
