import AuditChain.Consumer
import AuditChain.Ledger
import AuditChain.Shop.Catalog

/-!
# A storm of redeliveries

Many events are published through a broker that doubles every third message and loses every
fourth acknowledgement; the chain has one entry per event all the same.

## Main definitions

* `Shop.storm` — the scenario on a ledger.
* `Shop.stormText` — the account of it.
-/

namespace AuditChain.Shop

/-- How many events are published, unless told otherwise. -/
def stormEvents : Nat := 40

/-- How many consumers there are, unless told otherwise. -/
def stormWorkers : Nat := 4

/-- What the scenario shows. -/
structure StormSummary where
  /-- How many events were published. -/
  events : Nat
  /-- What the consumers report. -/
  consumer : Consumer.Report
  /-- What the broker counted. -/
  broker : Broker.Stats
  /-- The number of entries in the end. -/
  chainLength : Nat
  /-- The verification of the whole chain. -/
  report : Verify.Report
  deriving DecidableEq, Repr

/-- The broker of the scenario, with its messages. -/
def stormBroker (events : Nat) : Broker :=
  let b : Broker := { settings := Broker.Settings.of (some 3) (some 4) 16 }
  b.publishAll (traffic "storm" events)

/-- Counts and verifies the chain once the consumers have come to rest. -/
def stormSummary {σ : Type} (l : Ledger σ) (events : Nat) (consumer : Consumer.Report)
    (broker : Broker) : LedgerProgram (Except AuditError StormSummary) :=
  countEntries.bind fun
  | .error e => .done (.error e)
  | .ok chainLength =>
    l.verifyAll.bind fun
    | .error e => .done (.error e)
    | .ok report => .done (.ok ⟨events, consumer, broker.stats, chainLength, report⟩)

/-- Publishes events and lets consumers work.  How many consumers share the work does not change
any of the numbers, so one does it all. -/
def storm {σ : Type} [Responder σ] (l : Ledger σ) (events : Nat) :
    Except Crash (Except AuditError StormSummary) × Ledger σ :=
  match Consumer.run Responder.respond l.policy (stormBroker events) l.store with
  | (.error why, _, store) => (.error why, { l with store })
  | (.ok consumer, broker, store) =>
    let l := { l with store }
    l.run (stormSummary l events consumer broker)

/-- The account of the scenario. -/
def stormText (s : StormSummary) : List String :=
  [s!"  Logical events published:   {s.events}",
    s!"  Duplicate publishes:        {s.broker.duplicated}",
    s!"  Acks lost:                  {s.broker.acksLost}",
    s!"  Deliveries handed out:      {s.broker.delivered}",
    s!"  Consumers:                  {stormWorkers}",
    "",
    s!"  Appended:                   {s.consumer.appended}",
    s!"  Duplicates ignored:         {s.consumer.duplicates}",
    s!"  Nacked:                     {s.consumer.nacked}",
    s!"  Dead-lettered:              {s.consumer.deadLettered}",
    "",
    s!"  Chain length:               {s.chainLength} (expected {s.events})",
    s!"  Chain verification:         {s.report.finding.message}",
    "",
    "  Scenario 2 complete.",
    ""]

end AuditChain.Shop
