import AuditChain.Ledger
import AuditChain.Shop.Catalog

/-!
# A drill with forged entries

An exported chain is changed in two ways: an entry gets other values and keeps its hash, or gets
the hash that fits its new values.  Verification finds the one at the entry itself and the other
at the entry after it.

## Main definitions

* `Shop.forge` — an entry of a chain with other values.
* `Shop.drill` — the scenario on a ledger.
* `Shop.drillText` — the account of it.
-/

namespace AuditChain.Shop

/-- How many entries are appended. -/
def drillLength : Nat := 8

/-- Which entry is forged. -/
def forgedAt : UInt64 := 5

/-- The values that the forged entry gets. -/
def forgedValues : String :=
  "\x7b\"Name\":\"Espresso Grinder\",\"Category\":\"kitchen\",\"PriceCents\":1\x7d"

/-- What the scenario shows. -/
structure DrillSummary where
  /-- The verification of the export. -/
  clean : Verify.Report
  /-- The verification with other values in an entry. -/
  edited : Verify.Report
  /-- The verification of the entries before it. -/
  editedBefore : Verify.Report
  /-- The verification with other values and a new hash. -/
  forged : Verify.Report
  deriving DecidableEq, Repr

/-- Gives the entry at a sequence forged values, and the hash that fits them if `rehash` is set. -/
def forge (rehash : Bool) (sequence : UInt64) (entries : List Entry) : List Entry :=
  entries.map fun e =>
    if e.sequence = sequence then
      let e := { e with event := { e.event with newValues := some forgedValues } }
      if rehash then e.reseal else e
    else e

/-- Verifies a chain of which one entry was changed, as a store in memory holds it: all of it, and
the part before that entry. -/
def verifyForged (entries : List Entry) :
    Except AuditError (Verify.Report × Verify.Report) := do
  let store : Site := ⟨.empty, .memory (.ofEntries entries)⟩
  let answer (p : LedgerProgram (Except AuditError Verify.Report)) :
      Except AuditError Verify.Report :=
    match (p.runOn store).1 with
    | .ok result => result
    | .error why => .error (.storage why.message)
  let whole ← answer (Verify.verifyAll Verify.defaultBatch)
  let before ← answer (Verify.verify Verify.defaultBatch 0 (forgedAt - 1))
  return (whole, before)

/-- Appends the events of the drill and exports the chain. -/
def drillExport {σ : Type} (l : Ledger σ) (now : Timestamp) :
    LedgerProgram (Except AuditError Snapshot) :=
  (appendAll l.policy (traffic "drill" drillLength)).bind fun
  | .error e => .done (.error e)
  | .ok _ => Query.exportAll now

/-- What verification finds in a slice and in its forgeries. -/
def drillSummary (s : Snapshot) : Except AuditError DrillSummary := do
  let (edited, before) ← verifyForged (forge false forgedAt s.entries)
  return {
    clean := Verify.verifySnapshot s
    edited
    editedBefore := before
    forged := Verify.verifySnapshot { s with entries := forge true forgedAt s.entries } }

/-- Appends events, exports the chain, and verifies it and its forgeries. -/
def drill {σ : Type} (l : Ledger σ) (now : Timestamp) :
    LedgerProgram (Except AuditError DrillSummary) :=
  (drillExport l now).bind fun
  | .error e => .done (.error e)
  | .ok s => .done (drillSummary s)

/-- The account of the scenario on a chain with the given terminal hash. -/
def drillText (s : DrillSummary) (terminal : String) : List String :=
  let last := drillLength - 1
  [s!"  Chain of {drillLength} entries, terminal hash {shortHash terminal}…",
    s!"  Clean export:                      {s.clean.finding.message}",
    "",
    s!"  Attack 1: edit new_values of entry {forgedAt}, keep stored hash",
    s!"    verify(0..={last}):                  {s.edited.finding.message}",
    s!"    verify(0..={forgedAt - 1}):                  {s.editedBefore.finding.message}",
    "",
    s!"  Attack 2: edit entry {forgedAt} and recompute its hash",
    s!"    verify(0..={last}):                  {s.forged.finding.message}",
    "",
    "  Scenario 4 complete.",
    ""]

/-- The scenario and its account. -/
def drillScenario {σ : Type} (l : Ledger σ) (now : Timestamp) :
    LedgerProgram (Except AuditError (List String)) :=
  (drill l now).bind fun
  | .error e => .done (.error e)
  | .ok s =>
    readTail.bind fun
    | .error e => .done (.error e)
    | .ok tail => .done (.ok (drillText s ((tail.map ChainTail.hash).getD "")))

end AuditChain.Shop
