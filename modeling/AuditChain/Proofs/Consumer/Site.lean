import AuditChain.Proofs.Broker
import AuditChain.Proofs.Store.Schedule
import Mathlib.Logic.Relation

/-!
# Consumers among others

Consumers share a broker and a store with others, who publish, and who queue again what has been in
flight for too long; or they are by themselves.  A schedule tells what happens next; to play it is to
make a run, so that runs can be computed.

## Main definitions

* `Site` — the broker, the store, and what was published.
* `Stirs` — what others do.
* `Tends`, `Serves`, `Answers` — how the requests of a consumer are answered: by themselves, by any
  store, and among others.
* `consumers`, `crew` — consumers at work, among others and by themselves.
* `Turn`, `play` — what happens next, and one turn after another.

## Main results

* `run_play`, `run_play_answers` — **playing a schedule is a run.**
-/

namespace AuditChain.Consumer

variable {σ ι : Type}

/-! ### Steps -/

/-- What consumers share. -/
structure Site (σ : Type) where
  /-- The broker. -/
  broker : Broker
  /-- The store. -/
  store : σ
  /-- What was published, the last first. -/
  published : List Event := []

namespace Site

/-- An event is published. -/
def publish (s : Site σ) (event : Event) : Site σ :=
  { s with broker := s.broker.publish event, published := event :: s.published }

/-- What is in flight is queued again, in some order. -/
def redeliver (s : Site σ) (flight : List (Nat × Broker.Message)) : Site σ :=
  { s with broker := s.broker.redeliverIn flight }

end Site

/-- Somebody else does something. -/
inductive Stirs : Site σ → Site σ → Prop where
  /-- An event is published. -/
  | publish (s : Site σ) (event : Event) : Stirs s (s.publish event)
  /-- All that is in flight is queued again; in which order, is left open. -/
  | redeliver (s : Site σ) {flight : List (Nat × Broker.Message)}
      (hflight : flight.Perm s.broker.inFlight) : Stirs s (s.redeliver flight)

/-- Others do one thing after another. -/
abbrev Stirred : Site σ → Site σ → Prop := Relation.ReflTransGen Stirs

/-- Others leave the store alone. -/
theorem Stirred.store_eq {s t : Site σ} (hstirred : Stirred s t) : t.store = s.store := by
  induction hstirred with
  | refl => rfl
  | tail _ hstirs ih =>
    rw [← ih]
    cases hstirs <;> rfl

/-- A request of a consumer is answered, where `answers` tells how the store answers its own. -/
inductive Tends (answers : σ → Exchange ledger → σ → Prop) :
    Site σ → Exchange shop → Site σ → Prop where
  /-- The store answers, or fails to. -/
  | store {s : Site σ} {r : AuditChain.Request} {reply : r.Reply} {t : σ}
      (hans : answers s.store ⟨r, reply⟩ t) :
      Tends answers s ⟨.store r, reply⟩ { s with store := t }
  /-- The broker hands out a delivery. -/
  | delivery {s : Site σ} {d : Broker.Delivery} {b : Broker}
      (hreceive : s.broker.receive = some (d, b)) :
      Tends answers s ⟨.receive, some d⟩ { s with broker := b }
  /-- Nothing is queued and nothing is in flight.  A consumer waits as long as only the queue is
  empty. -/
  | drained {s : Site σ} (hpending : s.broker.pending = 0) : Tends answers s ⟨.receive, none⟩ s
  /-- A delivery is settled. -/
  | settle (s : Site σ) (tag : Nat) (settlement : Settlement) :
      Tends answers s ⟨.settle tag settlement, ()⟩
        { s with broker := settlement.apply s.broker tag }

/-- A request of a consumer is answered, by a store that may answer in any way. -/
abbrev Serves [Store σ] : Site σ → Exchange shop → Site σ → Prop := Tends Unreliable

/-- A request is answered after others have done what they like. -/
def Answers [Store σ] (s : Site σ) (x : Exchange shop) (s' : Site σ) : Prop :=
  ∃ t, Stirred s t ∧ Serves t x s'

/-- Consumers at work on an empty broker and a store, each with a policy, for so many rounds. -/
def consumers (settings : Broker.Settings) (s : σ) (policy : ι → RetryPolicy) (rounds : ι → Nat) :
    Pool shop ι (Site σ) Report :=
  ⟨{ broker := { settings }, store := s }, fun i => work (policy i) (rounds i) {}⟩

/-! ### By themselves -/

/-- Consumers at work on a broker and a store, each with a policy, for so many rounds. -/
def crew (s : Site σ) (policy : ι → RetryPolicy) (rounds : ι → Nat) :
    Pool shop ι (Site σ) Report :=
  ⟨s, fun i => work (policy i) (rounds i) {}⟩

/-! ### Schedules -/

/-- What happens next. -/
inductive Turn (ι : Type) where
  /-- An event is published. -/
  | publish (event : Event)
  /-- What is in flight is queued again, in the order of the tags. -/
  | redeliver
  /-- A consumer is answered, by the store in the given way. -/
  | answer (who : ι) (a : Answer)

variable [Store σ]

/-- The answer to a request, if there is one yet. -/
def Site.serve (s : Site σ) (a : Answer) : (r : Request) → Option (r.Reply × Site σ)
  | .store r =>
    let (reply, t) := a.apply r s.store
    some (reply, { s with store := t })
  | .receive =>
    match s.broker.receive with
    | some (d, b) => some (some d, { s with broker := b })
    | none => if s.broker.pending = 0 then some (none, s) else none
  | .settle tag settlement =>
    some ((), { s with broker := settlement.apply s.broker tag })

/-- Every such answer is one that may be given. -/
theorem Site.tends_of_serve {answers : σ → Exchange ledger → σ → Prop} {s s' : Site σ} {a : Answer}
    (ha : ∀ r t, answers t ⟨r, (a.apply r t).1⟩ (a.apply r t).2) {r : Request} {reply : r.Reply}
    (h : s.serve a r = some (reply, s')) : Tends answers s ⟨r, reply⟩ s' := by
  cases r with
  | store r =>
    obtain ⟨rfl, rfl⟩ := Prod.mk.inj (Option.some.inj h)
    exact .store (ha r s.store)
  | receive =>
    simp only [serve] at h
    split at h
    · rename_i d b hreceive
      obtain ⟨rfl, rfl⟩ := Prod.mk.inj (Option.some.inj h)
      exact .delivery hreceive
    · split at h
      · rename_i hpending
        obtain ⟨rfl, rfl⟩ := Prod.mk.inj (Option.some.inj h)
        exact .drained hpending
      · cases h
  | settle tag settlement =>
    obtain ⟨rfl, rfl⟩ := Prod.mk.inj (Option.some.inj h)
    exact .settle s tag settlement

variable [DecidableEq ι]

/-- One turn after another, from the site as others have left it.  A consumer that has come to its
end, or that has to wait, is passed over. -/
def play (P : Pool shop ι (Site σ) Report) (s : Site σ) :
    List (Turn ι) → List (Move shop ι (Site σ)) × Pool shop ι (Site σ) Report × Site σ
  | [] => ([], P, s)
  | .publish event :: turns => play P (s.publish event) turns
  | .redeliver :: turns => play P (s.redeliver s.broker.inFlight) turns
  | .answer i a :: turns =>
    match P.program i with
    | .ask r next =>
      match s.serve a r with
      | some (reply, t) =>
        let (h, Q, u) := play ⟨t, Function.update P.program i (next reply)⟩ t turns
        (h ++ [⟨i, P.state, ⟨r, reply⟩, t⟩], Q, u)
      | none => play P s turns
    | _ => play P s turns

/-- **Playing a schedule is a run.** -/
theorem run_play {P : Pool shop ι (Site σ) Report} {s : Site σ} (hs : Stirred P.state s)
    (turns : List (Turn ι)) : Run Answers P (play P s turns).1 (play P s turns).2.1 ∧
      Stirred (play P s turns).2.1.state (play P s turns).2.2 := by
  induction turns generalizing P s with
  | nil => exact ⟨.start, hs⟩
  | cons turn turns ih =>
    cases turn with
    | publish event => exact ih (hs.tail (.publish s event))
    | redeliver => exact ih (hs.tail (.redeliver s (.refl _)))
    | answer i a =>
      rw [play]
      split
      · rename_i r next hask
        split
        · rename_i reply t hserve
          have hans : Answers P.state ⟨r, reply⟩ t := ⟨s, hs, Site.tends_of_serve a.unreliable hserve⟩
          have hmove := Run.start.move hask hans
          obtain ⟨hrun, hstirred⟩ := ih (P := ⟨t, Function.update P.program i (next reply)⟩) .refl
          exact ⟨hmove.trans hrun, hstirred⟩
        · exact ih hs
      · exact ih hs

/-- So is playing a schedule in which nobody else does anything. -/
theorem run_play_answers {answers : σ → Exchange ledger → σ → Prop}
    {P : Pool shop ι (Site σ) Report} (schedule : List (ι × Answer))
    (hschedule : ∀ turn ∈ schedule, ∀ r s,
      answers s ⟨r, (turn.2.apply r s).1⟩ (turn.2.apply r s).2) :
    let played := play P P.state (schedule.map fun turn => .answer turn.1 turn.2)
    Run (Tends answers) P played.1 played.2.1 := by
  induction schedule generalizing P with
  | nil => exact .start
  | cons turn schedule ih =>
    obtain ⟨hturn, hrest⟩ := List.forall_mem_cons.mp hschedule
    obtain ⟨i, a⟩ := turn
    rw [List.map_cons]
    dsimp only
    rw [play]
    split
    · rename_i r next hask
      split
      · rename_i reply t hserve
        have hans : Tends answers P.state ⟨r, reply⟩ t := Site.tends_of_serve hturn hserve
        have hmove := Run.start.move hask hans
        exact hmove.trans (ih (P := ⟨t, Function.update P.program i (next reply)⟩) hrest)
      · exact ih hrest
    · exact ih hrest

end AuditChain.Consumer
