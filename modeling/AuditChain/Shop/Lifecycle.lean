import AuditChain.Ledger
import AuditChain.Shop.Catalog

/-!
# The life of a product

A product is listed and gets a new price; then the event of its listing is delivered again, and
the ledger knows it.

## Main definitions

* `Shop.lifecycle` — the scenario on a ledger.
* `Shop.lifecycleText` — the account of it.
-/

namespace AuditChain.Shop

/-- What the scenario shows. -/
structure LifecycleSummary where
  /-- The entry of the listing. -/
  created : Entry
  /-- The entry of the new price. -/
  modified : Entry
  /-- What became of the second delivery. -/
  replay : Outcome
  /-- The number of entries in the end. -/
  chainLength : Nat
  /-- The verification of the first two entries. -/
  report : Verify.Report
  deriving DecidableEq, Repr

/-- Lists a product, changes its price, and delivers the listing again. -/
def lifecycle {σ : Type} (l : Ledger σ) : LedgerProgram (Except AuditError LifecycleSummary) :=
  let create := productCreated "a" grinder epoch
  let reprice := priceChanged "b" grinder 9900 (epoch.addSeconds 300)
  (l.submit create).bind fun
  | .error e => .done (.error e)
  | .ok created =>
    (l.submit reprice).bind fun
    | .error e => .done (.error e)
    | .ok modified =>
      (l.submit create).bind fun
      | .error e => .done (.error e)
      | .ok replay =>
        countEntries.bind fun
        | .error e => .done (.error e)
        | .ok chainLength =>
          (l.verify 0 1).bind fun
          | .error e => .done (.error e)
          | .ok report =>
            .done (.ok ⟨created.entry, modified.entry, replay, chainLength, report⟩)

/-- What an account says of an entry. -/
def entryLines (e : Entry) : List String :=
  [s!"      sequence:       {e.sequence}",
    s!"      previous hash:  {shortHash e.previousHash}…",
    s!"      hash:           {shortHash e.hash}…"]

/-- An entry on the newest page. -/
def pageLine (e : Entry) : String :=
  let sequence := column .left 3 (toString e.sequence)
  let action := column .left 8 e.event.action.name
  s!"    #{sequence} {action} {e.event.entityName}/{e.event.entityId}"

/-- The account of the scenario, with the newest page of the ledger. -/
def lifecycleText (s : LifecycleSummary) (page : Page Entry) : List String :=
  let outcome := if s.replay.isDuplicate then "DuplicateIgnored" else "Appended"
  let plural := if page.totalCount = 1 then "y" else "ies"
  ["  [1] Product/42 Created   (dedup key \"a\")"] ++ entryLines s.created ++
    ["  [2] Product/42 Modified  (dedup key \"b\")"] ++ entryLines s.modified ++
    ["  [3] Product/42 Created redelivered (dedup key \"a\")",
      s!"      outcome:        {outcome}",
      s!"      stored entry:   sequence {s.replay.entry.sequence}",
      "",
      s!"  Chain length:           {s.chainLength}",
      s!"  Chain verification:     {s.report.finding.message}",
      s!"  Newest page:            page {page.pageNumber} of {page.totalPages} " ++
        s!"({page.totalCount} entr{plural})"] ++
    page.items.map pageLine ++ ["", "  Scenario 1 complete.", ""]

/-- The scenario and its account. -/
def lifecycleScenario {σ : Type} (l : Ledger σ) : LedgerProgram (Except AuditError (List String)) :=
  (lifecycle l).bind fun
  | .error e => .done (.error e)
  | .ok s =>
    (l.listPage 1 l.defaultPageSize).bind fun
    | .error e => .done (.error e)
    | .ok page => .done (.ok (lifecycleText s page))

end AuditChain.Shop
