import AuditChain.Append
import AuditChain.Broker

/-!
# Consumers

A consumer takes deliveries from a broker one at a time, submits each event, and settles the
delivery by what became of it: done if the event is in the chain, refused if another try may
succeed, put away if none will.

## Main definitions

* `Consumer.Report` — how many deliveries were settled in which way.
* `Consumer.Request`, `Consumer.shop` — what a consumer asks of the broker and the store.
* `Consumer.handle`, `Consumer.work` — one delivery, and a run of deliveries.
* `Consumer.run` — a run against a broker and a responder, with nobody else around.
-/

namespace AuditChain.Consumer

/-- How many deliveries were settled in which way. -/
structure Report where
  /-- New entries. -/
  appended : Nat := 0
  /-- Events that were in the chain already. -/
  duplicates : Nat := 0
  /-- Deliveries refused. -/
  nacked : Nat := 0
  /-- Deliveries put away. -/
  deadLettered : Nat := 0
  deriving DecidableEq, Repr

/-- Two reports taken together. -/
def Report.add (a b : Report) : Report :=
  ⟨a.appended + b.appended, a.duplicates + b.duplicates, a.nacked + b.nacked,
    a.deadLettered + b.deadLettered⟩

/-- How a delivery is settled. -/
inductive Settlement where
  /-- It is done. -/
  | ack
  /-- It is refused. -/
  | nack (reason : String)
  /-- It is put away. -/
  | deadLetter (reason : String)
  deriving DecidableEq, Repr

/-- What a consumer asks of its surroundings. -/
inductive Request where
  /-- A request to the store. -/
  | store (r : AuditChain.Request)
  /-- The next delivery; there is none once the broker is empty. -/
  | receive
  /-- To settle a delivery. -/
  | settle (tag : Nat) (s : Settlement)

/-- What each request is answered with. -/
abbrev Request.Reply : Request → Type
  | .store r => r.Reply
  | .receive => Option Broker.Delivery
  | .settle _ _ => Unit

/-- The interface between a consumer and its surroundings. -/
abbrev shop : Interface := ⟨Request, Request.Reply⟩

/-- Programs over a store, seen as parts of a consumer. -/
def overStore : ledger.Embedding shop where
  request := Request.store
  reply _ reply := reply

/-- What becomes of a delivery, and of the report. -/
def settlementOf (report : Report) : Except AuditError Outcome → Settlement × Report
  | .ok (.appended _) => (.ack, { report with appended := report.appended + 1 })
  | .ok (.duplicate _) => (.ack, { report with duplicates := report.duplicates + 1 })
  | .error e =>
    match e with
    | .transientStorage _ | .cancelled =>
      (.nack e.message, { report with nacked := report.nacked + 1 })
    | _ => (.deadLetter e.message, { report with deadLettered := report.deadLettered + 1 })

/-- Submits the event of a delivery and settles the delivery. -/
def handle (p : RetryPolicy) (d : Broker.Delivery) (report : Report) : Program shop Report :=
  ((submit p d.event).embed overStore).bind fun result =>
    let (settlement, report) := settlementOf report result
    .ask (.settle d.tag settlement) fun () => .done report

/-- Handles deliveries until the caller cancels, the broker is empty, or `rounds` of them have been
handled. -/
def work (p : RetryPolicy) : (rounds : Nat) → Report → Program shop Report
  | 0, report => .done report
  | rounds + 1, report =>
    .ask (.store .cancelled) fun stop =>
      if stop then .done report
      else .ask .receive fun
        | none => .done report
        | some d => (handle p d report).bind fun report => work p rounds report

/-- Settles a delivery at a broker. -/
def Settlement.apply (b : Broker) (tag : Nat) : Settlement → Broker
  | .ack => b.ack tag
  | .nack reason => b.nack tag reason
  | .deadLetter reason => b.deadLetter tag reason

/-- A broker and the responder of a store answer the requests of a consumer.  There is nobody else
to wait for, so nothing to receive means that the broker is empty. -/
def respond {σ : Type} (store : (r : AuditChain.Request) → σ → Except Crash r.Reply × σ) :
    (r : Request) → Broker × σ → Except Crash r.Reply × (Broker × σ)
  | .store r, (b, s) =>
    let (reply, s) := store r s
    (reply, (b, s))
  | .receive, (b, s) =>
    match b.receive with
    | none => (.ok none, (b, s))
    | some (d, b) => (.ok (some d), (b, s))
  | .settle tag settlement, (b, s) => (.ok (), (settlement.apply b tag, s))

/-- More than the deliveries a broker can come to hand out if nothing more is published and not
every acknowledgement is lost: each message can be refused as often as may be, and at most every
second acknowledgement brings a message back, whose count of deliveries may then start over. -/
def roundsOf (b : Broker) : Nat :=
  (2 * b.pending + 1) * (b.settings.maxDeliveries.toNat + 1) + 1

/-- Runs a consumer until it comes to rest. -/
def run {σ : Type} (store : (r : AuditChain.Request) → σ → Except Crash r.Reply × σ)
    (p : RetryPolicy) (b : Broker) (s : σ) : Except Crash Report × (Broker × σ) :=
  (work p (roundsOf b) {}).run (respond store) (b, s)

end AuditChain.Consumer
