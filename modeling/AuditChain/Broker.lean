import AuditChain.Event

/-!
# The message broker

A queue that delivers at least once.  A message that was handed out stays *in flight* until its
delivery is settled: acknowledged, refused, or put away for good.  On purpose the broker publishes
every so many messages twice and loses every so many acknowledgements, so that redeliveries
happen.

How many times a message was handed out is counted in a word of 32 bits.  The count starts over
after the greatest one, and with it the tries that a refused message has left; arithmetic that checks
for overflow would stop there instead.  Tags and totals have 64 bits, and are taken to go on without
end.

## Main definitions

* `Broker.Settings` — which publications and acknowledgements go wrong, and when to give up.
* `Broker` — the queue, the messages in flight, the dead letters and the counters.
* `Broker.publish`, `Broker.receive`, `Broker.ack`, `Broker.nack`, `Broker.deadLetter`,
  `Broker.redeliverUnacked` — the operations.
-/

namespace AuditChain

namespace Broker

/-- How a broker misbehaves, and when it gives up. -/
structure Settings where
  /-- Every so many publications are doubled. -/
  duplicateEvery : Option Nat := none
  /-- Every so many acknowledgements are lost. -/
  loseAckEvery : Option Nat := none
  /-- A refused message is put away after so many deliveries. -/
  maxDeliveries : UInt32 := 16
  deriving DecidableEq, Repr

/-- Settings in which every number is at least one. -/
def Settings.of (duplicateEvery loseAckEvery : Option Nat) (maxDeliveries : UInt32) : Settings :=
  ⟨duplicateEvery.map (max 1), loseAckEvery.map (max 1), max 1 maxDeliveries⟩

/-- A message and how many times it was handed out. -/
structure Message where
  /-- The event. -/
  event : Event
  /-- How many times it was handed out; the count starts over after the greatest word. -/
  attempts : UInt32 := 0
  deriving DecidableEq, Repr

/-- A message as handed out. -/
structure Delivery where
  /-- What the delivery is settled by; no two deliveries share a tag. -/
  tag : Nat
  /-- The how-manieth time it is that the message is handed out. -/
  attempt : UInt32
  /-- The event. -/
  event : Event
  deriving DecidableEq, Repr

/-- The message was handed out before. -/
def Delivery.isRedelivery (d : Delivery) : Bool :=
  1 < d.attempt

/-- A message that was put away. -/
structure DeadLetter where
  /-- The event. -/
  event : Event
  /-- How many times it was handed out. -/
  attempts : UInt32
  /-- Why it was put away. -/
  reason : String
  deriving DecidableEq, Repr

/-- What has happened so far. -/
structure Stats where
  /-- Messages published. -/
  published : Nat := 0
  /-- Messages doubled. -/
  duplicated : Nat := 0
  /-- Deliveries handed out. -/
  delivered : Nat := 0
  /-- Those of messages handed out before. -/
  redelivered : Nat := 0
  /-- Acknowledgements. -/
  acked : Nat := 0
  /-- Those that were lost. -/
  acksLost : Nat := 0
  /-- Refusals. -/
  nacked : Nat := 0
  /-- Messages put away. -/
  deadLettered : Nat := 0
  deriving DecidableEq, Repr

end Broker

open Broker in
/-- A broker. -/
structure Broker where
  /-- How it misbehaves. -/
  settings : Settings := {}
  /-- The messages to hand out, the first first. -/
  ready : List Message := []
  /-- The messages handed out and not settled, under their tags. -/
  inFlight : List (Nat × Message) := []
  /-- The messages put away. -/
  dead : List DeadLetter := []
  /-- The tag handed out last. -/
  lastTag : Nat := 0
  /-- What has happened so far. -/
  stats : Stats := {}
  deriving DecidableEq, Repr

namespace Broker

/-- The number of messages that are queued or in flight. -/
def pending (b : Broker) : Nat :=
  b.ready.length + b.inFlight.length

/-- The occasion with this number is one of every so many. -/
def isDue (every : Option Nat) (number : Nat) : Bool :=
  match every with
  | none => false
  | some n => number % n == 0

/-- Publishes an event; every so many are queued twice. -/
def publish (b : Broker) (event : Event) : Broker :=
  let published := b.stats.published + 1
  if isDue b.settings.duplicateEvery published then
    { b with
      ready := b.ready ++ [⟨event, 0⟩, ⟨event, 0⟩]
      stats := { b.stats with published, duplicated := b.stats.duplicated + 1 } }
  else
    { b with
      ready := b.ready ++ [⟨event, 0⟩]
      stats := { b.stats with published } }

/-- Publishes events in order. -/
def publishAll (b : Broker) (events : List Event) : Broker :=
  events.foldl publish b

/-- Hands out the first message of the queue, if there is one. -/
def receive (b : Broker) : Option (Delivery × Broker) :=
  match b.ready with
  | [] => none
  | m :: ready =>
    let m := { m with attempts := m.attempts + 1 }
    let tag := b.lastTag + 1
    let redelivered := b.stats.redelivered + if 1 < m.attempts then 1 else 0
    some (⟨tag, m.attempts, m.event⟩,
      { b with
        ready
        inFlight := b.inFlight ++ [(tag, m)]
        lastTag := tag
        stats := { b.stats with delivered := b.stats.delivered + 1, redelivered } })

/-- Takes the message under a tag out of those in flight. -/
def take? (b : Broker) (tag : Nat) : Option (Message × Broker) :=
  (b.inFlight.lookup tag).map fun m =>
    (m, { b with inFlight := b.inFlight.filter fun p => p.1 != tag })

/-- Puts a message at the end of the queue. -/
def requeue (b : Broker) (m : Message) : Broker :=
  { b with ready := b.ready ++ [m] }

/-- Puts a message away. -/
def bury (b : Broker) (m : Message) (reason : String) : Broker :=
  { b with
    dead := b.dead ++ [⟨m.event, m.attempts, reason⟩]
    stats := { b.stats with deadLettered := b.stats.deadLettered + 1 } }

/-- Settles a delivery as done.  Every so many acknowledgements are lost, and the message is queued
again.  A delivery that is not in flight is passed over. -/
def ack (b : Broker) (tag : Nat) : Broker :=
  match b.take? tag with
  | none => b
  | some (m, b) =>
    let acked := b.stats.acked + 1
    if isDue b.settings.loseAckEvery acked then
      { b with stats := { b.stats with acked, acksLost := b.stats.acksLost + 1 } }.requeue m
    else { b with stats := { b.stats with acked } }

/-- Settles a delivery as refused.  The message is queued again, or put away if it was handed out
as often as may be. -/
def nack (b : Broker) (tag : Nat) (reason : String) : Broker :=
  match b.take? tag with
  | none => b
  | some (m, b) =>
    let b := { b with stats := { b.stats with nacked := b.stats.nacked + 1 } }
    if b.settings.maxDeliveries ≤ m.attempts then
      b.bury m s!"delivery attempts exhausted: {reason}"
    else b.requeue m

/-- Settles a delivery by putting its message away. -/
def deadLetter (b : Broker) (tag : Nat) (reason : String) : Broker :=
  match b.take? tag with
  | none => b
  | some (m, b) => b.bury m reason

/-- Queues all messages in flight again, in the order of their tags. -/
def redeliverUnacked (b : Broker) : Broker :=
  { b with ready := b.ready ++ b.inFlight.map Prod.snd, inFlight := [] }

end Broker

end AuditChain
