import AuditChain.Config
import AuditChain.Append
import AuditChain.Store.Connection
import AuditChain.Verify.Verifier

/-!
# Ledgers

A ledger is a store together with the settings under which it is written, verified and read.

## Main definitions

* `Workspace.openStore` — the store that settings name.
* `Ledger` — a store under settings.
* `Ledger.submit`, `Ledger.verify`, `Ledger.listPage`, … — the operations under these settings.
-/

namespace AuditChain

/-- Opens the store that settings name.  The directory of a ledger file is made if need be, and may
be made also if the file cannot be opened. -/
def Workspace.openStore (w : Workspace) (s : StoreSettings) :
    Except AuditError Connection × Workspace :=
  match s.kind, s.path with
  | .memory, _ => (.ok (.memory .empty), w)
  | .file, none => (.error (.config Config.Flaw.noPath.message), w)
  | .file, some path =>
    match w.makeParents path with
    | (.error e, w) =>
      let directory := (Path.parent? path).getD ""
      (.error (.storage s!"cannot create ledger directory '{directory}': {e.message}"), w)
    | (.ok (), w) =>
      match w.openLedger path with
      | (.error e, w) => (.error e.toAuditError, w)
      | (.ok place, w) => (.ok (.ledger place), w)

/-- A store under settings. -/
structure Ledger (σ : Type) where
  /-- The store. -/
  store : σ
  /-- How hard appends are retried. -/
  policy : RetryPolicy := {}
  /-- How many entries are verified at a time. -/
  batchSize : UInt64 := Verify.defaultBatch
  /-- The greatest size of a page. -/
  maxPageSize : UInt64 := Query.defaultMaxPageSize
  /-- The usual size of a page. -/
  defaultPageSize : UInt64 := 10

namespace Ledger

variable {σ α : Type}

/-- A store under the settings of a configuration. -/
def ofConfig (c : Config) (store : σ) : Ledger σ where
  store := store
  policy := c.policy
  batchSize := c.verify.batchSize
  maxPageSize := c.query.maxPageSize
  defaultPageSize := c.query.defaultPageSize

/-- A ledger in memory, in a directory of its own. -/
def scratch (c : Config) : Ledger Site :=
  ofConfig c ⟨.empty, .memory .empty⟩

/-- Opens the ledger that a configuration names. -/
def openAt (w : Workspace) (c : Config) : Except AuditError (Ledger Site) × Workspace :=
  match w.openStore c.store with
  | (.error e, w) => (.error e, w)
  | (.ok connection, w) => (.ok (ofConfig c ⟨w, connection⟩), w)

/-- The same settings over another store. -/
def withStore {τ : Type} (l : Ledger σ) (store : τ) : Ledger τ :=
  { l with store }

/-- Runs a program against the store. -/
def run [Responder σ] (l : Ledger σ) (p : LedgerProgram α) : Except Crash α × Ledger σ :=
  let (result, store) := p.runOn l.store
  (result, { l with store })

/-- Appends an event under the retry policy. -/
def submit (l : Ledger σ) (event : Event) : LedgerProgram (Except AuditError Outcome) :=
  AuditChain.submit l.policy event

/-- Verifies a range, in batches of the configured size. -/
def verify (l : Ledger σ) (first last : UInt64) :
    LedgerProgram (Except AuditError Verify.Report) :=
  Verify.verify l.batchSize first last

/-- Verifies everything, in batches of the configured size. -/
def verifyAll (l : Ledger σ) : LedgerProgram (Except AuditError Verify.Report) :=
  Verify.verifyAll l.batchSize

/-- Reads a page, of at most the configured size. -/
def listPage (l : Ledger σ) (number size : UInt64) :
    LedgerProgram (Except AuditError (Page Entry)) :=
  Query.listPage l.maxPageSize number size

end Ledger

/-- The number of entries, on a path that does not retry. -/
def countEntries : LedgerProgram (Except AuditError Nat) :=
  .ask .count fun reply => .done (withoutRetry reply)

/-- The end of the chain, on a path that does not retry. -/
def readTail : LedgerProgram (Except AuditError (Option ChainTail)) :=
  .ask .tail fun reply => .done (withoutRetry reply)

end AuditChain
