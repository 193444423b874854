import AuditChain.Proofs.Append.Alone
import AuditChain.Proofs.Broker
import Mathlib.Data.Nat.Find
import Mathlib.Order.Bounds.Basic

/-!
# A worker drains a broker

A worker alone with a broker and a store in memory comes to an end, although a lost acknowledgement
brings a message back: of two acknowledgements in a row at most one is lost, so the queue gets
shorter all the same.  What comes back is known by then.  The chain in the end is the one that the
published events make, as if each had been delivered once, in the order in which they were published.

## Main definitions

* `Broker.Published`, `Broker.Acknowledged` — a broker after publications, and after one delivery.
* `Consumer.Draining` — how far a worker has come.
* `Consumer.Drained` — what it leaves.

## Main results

* `Broker.exists_isLeast_settled` — after how many acknowledgements nothing is left.
* `Consumer.Draining.step` — what one delivery preserves.
* `Consumer.worker_drains` — **a worker computes the chain of the published events.**
-/

namespace AuditChain

namespace Broker

/-! ### Acknowledgements enough -/

/-- So many copies are settled for good after at most twice as many acknowledgements. -/
theorem exists_settled {every : Option Nat} (hevery : ∀ n ∈ every, 2 ≤ n) (copies : Nat) :
    ∃ acked, acked - due every acked = copies ∧ acked ≤ 2 * copies := by
  induction copies with
  | zero => exact ⟨0, Nat.zero_sub _, Nat.le_refl 0⟩
  | succ copies ih =>
    obtain ⟨acked, hacked, hle⟩ := ih
    have hone := due_succ every acked
    have htwo : due every (acked + 2) = due every (acked + 1) +
      if isDue every (acked + 2) then 1 else 0 := due_succ every (acked + 1)
    have hdue := due_le every acked
    by_cases hlost : isDue every (acked + 1) = true
    · -- the acknowledgement after a lost one is not lost
      rw [if_pos hlost] at hone
      rw [if_neg (by rw [not_isDue_succ hevery hlost]; exact Bool.false_ne_true)] at htwo
      exact ⟨acked + 2, by omega, by omega⟩
    · rw [if_neg hlost] at hone
      exact ⟨acked + 1, by omega, by omega⟩

theorem exists_isLeast_settled {every : Option Nat} (hevery : ∀ n ∈ every, 2 ≤ n) (copies : Nat) :
    ∃ last, IsLeast {acked | acked - due every acked = copies} last ∧ last ≤ 2 * copies := by
  classical
  obtain ⟨acked, hacked, hle⟩ := exists_settled hevery copies
  have hexists : ∃ acked, acked - due every acked = copies := ⟨acked, hacked⟩
  refine ⟨Nat.find hexists, ⟨Nat.find_spec hexists, fun _ h => Nat.find_min' hexists h⟩, ?_⟩
  exact Nat.le_trans (Nat.find_min' hexists hacked) hle

/-! ### Publications -/

/-- The events have been published at a fresh broker, and nothing else has happened. -/
structure Published (s : Settings) (events : List Event) (b : Broker) : Prop where
  settings : b.settings = s
  inFlight : b.inFlight = []
  dead : b.dead = []
  stats : b.stats =
    { published := events.length, duplicated := due s.duplicateEvery events.length }
  length_ready : b.ready.length = events.length + due s.duplicateEvery events.length
  /-- The queue leaves of a chain what the events leave of it. -/
  foldl : ∀ es, (b.ready.map Message.event).foldl appendNew es = events.foldl appendNew es

theorem published_fresh (s : Settings) : Published s [] { settings := s } := by
  refine ⟨rfl, rfl, rfl, ?_, ?_, fun _ => rfl⟩
  · rw [List.length_nil, due_zero]
  · show 0 = 0 + due s.duplicateEvery 0
    rw [due_zero]

theorem Published.publish {s : Settings} {events : List Event} {b : Broker}
    (h : Published s events b) (event : Event) :
    Published s (events ++ [event]) (b.publish event) := by
  have hdue := due_succ s.duplicateEvery events.length
  have hlength : (events ++ [event]).length = events.length + 1 := List.length_append
  have hfold : ∀ es, (events ++ [event]).foldl appendNew es =
      appendNew (events.foldl appendNew es) event := fun es => List.foldl_append
  unfold Broker.publish
  rw [h.settings, h.stats]
  dsimp only
  split
  · rename_i htwice
    rw [if_pos htwice] at hdue
    refine ⟨rfl, h.inFlight, h.dead, ?_, ?_, ?_⟩
    · rw [hlength, hdue]
    · rw [hlength, hdue, List.length_append, h.length_ready]
      simp only [List.length_cons, List.length_nil]
      omega
    · intro es
      -- the second copy finds its key committed
      rw [hfold, List.map_append, List.foldl_append, h.foldl]
      exact appendNew_of_mem (mem_keysOf_appendNew _ event)
  · rename_i honce
    rw [if_neg honce] at hdue
    refine ⟨rfl, h.inFlight, h.dead, ?_, ?_, ?_⟩
    · rw [hlength, hdue]
      rfl
    · rw [hlength, hdue, List.length_append, h.length_ready, List.length_singleton]
      omega
    · intro es
      rw [hfold, List.map_append, List.foldl_append, h.foldl]
      rfl

theorem published_publishAll (s : Settings) (events : List Event) :
    Published s events (({ settings := s } : Broker).publishAll events) := by
  induction events using List.reverseRecOn with
  | nil => exact published_fresh s
  | append_singleton events event ih =>
    rw [publishAll, List.foldl_append]
    exact ih.publish event

/-! ### One delivery -/

/-- The first message of the queue was handed out, with nothing else in flight, and acknowledged. -/
structure Acknowledged (b : Broker) (event : Event) (rest : List Event) (b' : Broker) : Prop where
  settings : b'.settings = b.settings
  inFlight : b'.inFlight = []
  dead : b'.dead = b.dead
  stats : b'.stats = { b.stats with
    delivered := b.stats.delivered + 1
    redelivered := b'.stats.redelivered
    acked := b.stats.acked + 1
    acksLost := b.stats.acksLost +
      if isDue b.settings.loseAckEvery (b.stats.acked + 1) then 1 else 0 }
  /-- The message is queued again if the acknowledgement was lost. -/
  ready : b'.ready.map Message.event =
    rest ++ if isDue b.settings.loseAckEvery (b.stats.acked + 1) then [event] else []

theorem exists_acknowledged {b : Broker} {m : Message} {ready : List Message}
    (hready : b.ready = m :: ready) (hflight : b.inFlight = []) :
    ∃ d b₁, b.receive = some (d, b₁) ∧ d.event = m.event ∧
      Acknowledged b m.event (ready.map Message.event) (b₁.ack d.tag) := by
  obtain ⟨settings, _, _, dead, lastTag, stats⟩ := b
  obtain rfl : _ = _ := hready
  obtain rfl : _ = _ := hflight
  refine ⟨_, _, rfl, rfl, ?_⟩
  unfold ack take?
  simp only [List.nil_append, List.lookup_cons_self, Option.map_some]
  split
  · rename_i hlost
    refine ⟨rfl, ?_, rfl, ?_, ?_⟩
    · simp [requeue]
    · simp [requeue, hlost]
    · simp [requeue, hlost]
  · rename_i hkept
    refine ⟨rfl, ?_, rfl, ?_, ?_⟩
    · simp
    · simp [hkept]
    · simp [hkept]

end Broker

namespace Consumer

open Broker (Settings due due_succ due_zero isDue)

/-! ### One round -/

/-- A program of a store is run as it would be without a broker. -/
theorem run_embed {σ α : Type} (store : (r : AuditChain.Request) → σ → Except Crash r.Reply × σ)
    (q : LedgerProgram α) (b : Broker) (s : σ) :
    (q.embed overStore).run (respond store) (b, s) = ((q.run store s).1, (b, (q.run store s).2)) := by
  induction q generalizing s with
  | done a => rfl
  | crash why => rfl
  | ask r next ih =>
    unfold Program.embed Program.run
    simp only [respond, overStore]
    cases hreply : store r s with
    | mk reply s' =>
      cases reply with
      | error why => rfl
      | ok reply => exact ih reply s'

/-- What a report says after one more outcome. -/
def Report.after (r : Report) (outcome : Outcome) : Report :=
  if outcome.isDuplicate then { r with duplicates := r.duplicates + 1 }
  else { r with appended := r.appended + 1 }

theorem Report.appended_after (r : Report) (outcome : Outcome) :
    (r.after outcome).appended = r.appended + if outcome.isDuplicate then 0 else 1 := by
  unfold Report.after
  split <;> rfl

theorem Report.duplicates_after (r : Report) (outcome : Outcome) :
    (r.after outcome).duplicates = r.duplicates + if outcome.isDuplicate then 1 else 0 := by
  unfold Report.after
  split <;> rfl

theorem Report.refused_after (r : Report) (outcome : Outcome) :
    (r.after outcome).nacked = r.nacked ∧ (r.after outcome).deadLettered = r.deadLettered := by
  unfold Report.after
  split <;> exact ⟨rfl, rfl⟩

theorem settlementOf_ok (r : Report) (outcome : Outcome) :
    settlementOf r (.ok outcome) = (.ack, r.after outcome) := by
  cases outcome with
  | appended e => rfl
  | duplicate e => rfl

/-- A delivery whose event is submitted with an outcome is acknowledged. -/
theorem handle_run {σ : Type} {store : (r : AuditChain.Request) → σ → Except Crash r.Reply × σ}
    {p : RetryPolicy} {d : Broker.Delivery} {s s' : σ} {outcome : Outcome}
    (hsubmit : (submit p d.event).run store s = (.ok (.ok outcome), s')) (b : Broker) (r : Report) :
    (handle p d r).run (respond store) (b, s) = (.ok (r.after outcome), (b.ack d.tag, s')) := by
  have hembed := run_embed store (submit p d.event) b s
  rw [hsubmit] at hembed
  unfold handle
  rw [Program.run_bind hembed, settlementOf_ok]
  rfl

theorem work_run_of_receive {σ : Type} [Store σ] {p : RetryPolicy} {d : Broker.Delivery}
    {b b₁ b' : Broker} {s s' : σ} {r r' : Report} (hreceive : b.receive = some (d, b₁))
    (hhandle : (handle p d r).run (respond (Store.respond false)) (b₁, s) = (.ok r', (b', s')))
    (rounds : Nat) :
    (work p (rounds + 1) r).run (respond (Store.respond false)) (b, s) =
      (work p rounds r').run (respond (Store.respond false)) (b', s') := by
  rw [work]
  simp only [Program.run, respond, Store.respond, Store.reply, Bool.false_eq_true, if_false,
    hreceive]
  exact Program.run_bind hhandle _

theorem work_run_of_empty {σ : Type} [Store σ] {b : Broker} (hready : b.ready = []) (s : σ)
    (p : RetryPolicy) (r : Report) (rounds : Nat) :
    (work p rounds r).run (respond (Store.respond false)) (b, s) = (.ok r, (b, s)) := by
  have hreceive : b.receive = none := Broker.receive_eq_none_iff.mpr hready
  cases rounds with
  | zero => rfl
  | succ rounds =>
    rw [work]
    simp only [Program.run, respond, Store.respond, Store.reply, Bool.false_eq_true, if_false,
      hreceive]

/-! ### The loop -/

/-- How many copies of so many events a broker queues. -/
def copies (s : Settings) (events : List Event) : Nat :=
  events.length + due s.duplicateEvery events.length

/-- How far a worker has come that drains a broker of its events: what is queued leads to the chain
that the events make, and each acknowledgement but those lost has settled one copy for good. -/
structure Draining (s : Settings) (events : List Event) (m₀ : MemoryStore) (b : Broker)
    (m : MemoryStore) (r : Report) : Prop where
  settings : b.settings = s
  inFlight : b.inFlight = []
  dead : b.dead = []
  stats : b.stats = {
    published := events.length
    duplicated := due s.duplicateEvery events.length
    delivered := b.stats.acked
    redelivered := b.stats.redelivered
    acked := b.stats.acked
    acksLost := due s.loseAckEvery b.stats.acked }
  left : b.stats.acked + b.ready.length = copies s events + due s.loseAckEvery b.stats.acked
  indexed : m.Indexed
  chain : IsChain m.entries
  target : (b.ready.map Broker.Message.event).foldl appendNew m.entries =
    events.foldl appendNew m₀.entries
  appended : m.entries.length = m₀.entries.length + r.appended
  counted : r.appended + r.duplicates = b.stats.acked
  refused : r.nacked = 0 ∧ r.deadLettered = 0

namespace Draining

variable {s : Settings} {events : List Event} {m₀ m : MemoryStore} {b : Broker} {r : Report}

theorem start (hm : m.Indexed) (hchain : IsChain m.entries) (hb : Broker.Published s events b) :
    Draining s events m b m {} where
  settings := hb.settings
  inFlight := hb.inFlight
  dead := hb.dead
  stats := by
    rw [hb.stats, due_zero]
  left := by
    rw [hb.stats, hb.length_ready, due_zero]
    exact Nat.zero_add _
  indexed := hm
  chain := hchain
  target := hb.foldl m.entries
  appended := rfl
  counted := by
    rw [hb.stats]
    rfl
  refused := ⟨rfl, rfl⟩

/-- A message that is submitted and acknowledged leaves the worker on its way. -/
theorem acknowledge (inv : Draining s events m₀ b m r) {msg : Broker.Message}
    {ready : List Broker.Message} (hqueue : b.ready = msg :: ready) {b' : Broker}
    (hack : Broker.Acknowledged b msg.event (ready.map Broker.Message.event) b')
    {outcome : Outcome} {m' : MemoryStore} (hsubmitted : Submitted m msg.event outcome m') :
    Draining s events m₀ b' m' (r.after outcome) := by
  have hacked : b'.stats.acked = b.stats.acked + 1 := by
    rw [hack.stats]
  have hdue := due_succ s.loseAckEvery b.stats.acked
  refine ⟨hack.settings.trans inv.settings, hack.inFlight, hack.dead.trans inv.dead, ?_, ?_,
    hsubmitted.indexed, hsubmitted.chain, ?_, ?_, ?_, ?_⟩
  · rw [hacked, hdue]
    refine hack.stats.trans ?_
    rw [inv.stats, inv.settings]
  · have hleft := inv.left
    have hmap := congrArg List.length hack.ready
    rw [inv.settings, List.length_map, List.length_append, List.length_map] at hmap
    rw [hqueue, List.length_cons] at hleft
    rw [hacked, hdue, hmap]
    split
    · simp only [List.length_singleton]
      omega
    · simp only [List.length_nil]
      omega
  · have htarget := inv.target
    rw [hqueue, List.map_cons, List.foldl_cons, ← hsubmitted.entries] at htarget
    rw [hack.ready, inv.settings]
    split
    · -- the message that is queued again is known by now
      have hknown : msg.event.dedupKey ∈ keysOf m'.entries := by
        rw [hsubmitted.entries]
        exact mem_keysOf_appendNew _ _
      rwa [foldl_appendNew_again hknown]
    · rwa [List.append_nil]
  · rw [hsubmitted.length_entries, inv.appended, Nat.add_assoc, r.appended_after]
  · rw [hacked, ← inv.counted, r.appended_after, r.duplicates_after]
    split <;> omega
  · obtain ⟨hnacked, hdead⟩ := r.refused_after outcome
    rw [hnacked, hdead]
    exact inv.refused

/-- **One delivery** brings the worker further by one acknowledgement. -/
theorem step (inv : Draining s events m₀ b m r) (hready : b.ready ≠ [])
    (hroom : (events.foldl appendNew m₀.entries).length ≤ 18446744073709551616)
    (p : RetryPolicy) : ∃ b' m' r', Draining s events m₀ b' m' r' ∧
      b'.stats.acked = b.stats.acked + 1 ∧
      ∀ rounds, (work p (rounds + 1) r).run (respond (Store.respond false)) (b, m) =
        (work p rounds r').run (respond (Store.respond false)) (b', m') := by
  obtain ⟨msg, ready, hqueue⟩ := List.exists_cons_of_ne_nil hready
  obtain ⟨d, b₁, hreceive, hevent, hack⟩ := Broker.exists_acknowledged hqueue inv.inFlight
  -- the chain does not get longer than it is in the end
  have hfits : (appendNew m.entries d.event).length ≤ 18446744073709551616 := by
    have htarget := inv.target
    rw [hqueue, List.map_cons, List.foldl_cons] at htarget
    have hle := length_le_foldl (appendNew m.entries msg.event) (ready.map Broker.Message.event)
    rw [htarget] at hle
    rw [hevent]
    exact Nat.le_trans hle hroom
  obtain ⟨outcome, m', hsubmit, hsubmitted⟩ := submit_alone inv.indexed inv.chain hfits p
  rw [hevent] at hsubmitted
  have hacked : (b₁.ack d.tag).stats.acked = b.stats.acked + 1 := by
    rw [hack.stats]
  exact ⟨b₁.ack d.tag, m', r.after outcome, inv.acknowledge hqueue hack hsubmitted, hacked,
    work_run_of_receive hreceive (handle_run hsubmit b₁ r)⟩

/-- The worker has come to the end if the queue is empty, and only then. -/
theorem ready_eq_nil_iff (inv : Draining s events m₀ b m r) {last : Nat}
    (hlast : IsLeast {acked | acked - due s.loseAckEvery acked = copies s events} last)
    (hle : b.stats.acked ≤ last) : b.ready = [] ↔ b.stats.acked = last := by
  have hleft := inv.left
  have hdue := Broker.due_le s.loseAckEvery b.stats.acked
  rw [← List.length_eq_zero_iff]
  constructor
  · intro hready
    have hsettled : b.stats.acked ∈
        {acked | acked - due s.loseAckEvery acked = copies s events} := by
      show b.stats.acked - due s.loseAckEvery b.stats.acked = copies s events
      omega
    exact Nat.le_antisymm hle (hlast.2 hsettled)
  · intro heq
    have hsettled : last - due s.loseAckEvery last = copies s events := hlast.1
    rw [← heq] at hsettled
    omega

/-- **A run of deliveries** ends after as many as it takes, however many rounds there may be. -/
theorem run (inv : Draining s events m₀ b m r)
    (hroom : (events.foldl appendNew m₀.entries).length ≤ 18446744073709551616) {last : Nat}
    (hlast : IsLeast {acked | acked - due s.loseAckEvery acked = copies s events} last)
    (hle : b.stats.acked ≤ last) (p : RetryPolicy) :
    ∃ b' m' r', Draining s events m₀ b' m' r' ∧ b'.ready = [] ∧ b'.stats.acked = last ∧
      ∀ rounds, last ≤ b.stats.acked + rounds →
        (work p rounds r).run (respond (Store.respond false)) (b, m) = (.ok r', (b', m')) := by
  -- the acknowledgements still to come are fewer after each delivery
  induction hn : last - b.stats.acked generalizing b m r with
  | zero =>
    have hend : b.stats.acked = last := by omega
    have hready := (inv.ready_eq_nil_iff hlast hle).mpr hend
    exact ⟨b, m, r, inv, hready, hend, fun rounds _ => work_run_of_empty hready m p r rounds⟩
  | succ n ih =>
    have hready : b.ready ≠ [] := by
      intro hnil
      have hend := (inv.ready_eq_nil_iff hlast hle).mp hnil
      omega
    obtain ⟨b₁, m₁, r₁, inv₁, hacked, hstep⟩ := inv.step hready hroom p
    obtain ⟨b', m', r', inv', hempty, hend, hrun⟩ := ih inv₁ (by omega) (by omega)
    refine ⟨b', m', r', inv', hempty, hend, ?_⟩
    intro rounds hrounds
    cases rounds with
    | zero => omega
    | succ rounds =>
      rw [hstep]
      exact hrun rounds (by omega)

end Draining

/-! ### What a worker leaves -/

/-- What a worker leaves that has drained a broker of its events: the report, the broker and the
store. -/
structure Drained (s : Settings) (events : List Event) (m₀ : MemoryStore) (r : Report) (b : Broker)
    (m : MemoryStore) : Prop where
  /-- The store holds a chain, -/
  chain : IsChain m.entries
  /-- the one from before with an entry for each newcomer behind it, in the order in which they were
  published, -/
  entries : ∃ new, m.entries = m₀.entries ++ new ∧
    new.map Entry.event = newcomers (keysOf m₀.entries) events
  /-- which is what was appended. -/
  appended : r.appended = (newcomers (keysOf m₀.entries) events).length
  /-- All other deliveries were duplicates. -/
  duplicates : r.appended + r.duplicates = b.stats.delivered
  /-- Nothing was refused or put away. -/
  refused : r.nacked = 0 ∧ r.deadLettered = 0 ∧ b.stats.nacked = 0 ∧ b.stats.deadLettered = 0 ∧
    b.dead = []
  /-- Nothing is queued or in flight. -/
  empty : b.pending = 0
  /-- All publications and doublings were counted. -/
  published : b.stats.published = events.length ∧
    b.stats.duplicated = due s.duplicateEvery events.length
  /-- As many deliveries as acknowledgements were made, -/
  delivered : b.stats.delivered = b.stats.acked
  /-- no more than it takes if so many of them are lost. -/
  least : IsLeast {acked | acked - due s.loseAckEvery acked = b.stats.published + b.stats.duplicated}
    b.stats.delivered

theorem Draining.drained {s : Settings} {events : List Event} {m₀ m : MemoryStore} {b : Broker}
    {r : Report} (inv : Draining s events m₀ b m r) (hready : b.ready = [])
    (hlast : IsLeast {acked | acked - due s.loseAckEvery acked = copies s events} b.stats.acked) :
    Drained s events m₀ r b m := by
  obtain ⟨new, hnew, hevents⟩ := foldl_appendNew m₀.entries events
  have hentries : m.entries = m₀.entries ++ new := by
    have htarget := inv.target
    rwa [hready, hnew] at htarget
  have hlength := inv.appended
  rw [hentries, List.length_append] at hlength
  refine ⟨inv.chain, ⟨new, hentries, hevents⟩, ?_, ?_, ?_, ?_, ?_, ?_, ?_⟩
  · rw [← hevents, List.length_map]
    omega
  · rw [inv.stats]
    exact inv.counted
  · rw [inv.stats]
    exact ⟨inv.refused.1, inv.refused.2, rfl, rfl, inv.dead⟩
  · rw [Broker.pending, hready, inv.inFlight]
    rfl
  · rw [inv.stats]
    exact ⟨rfl, rfl⟩
  · rw [inv.stats]
  · rw [inv.stats]
    exact hlast

/-- **A worker computes the chain of the published events.**  Events have been published at a fresh
broker, which may double some of them and loses at most every second acknowledgement.  A worker
alone with it, and with a store in memory that holds a chain and has sequences left for all
newcomers, comes to an end: it makes as many deliveries as it takes, whatever number of rounds there
is beyond that, and leaves the broker empty. -/
theorem worker_drains {m₀ : MemoryStore} (hm₀ : m₀.Indexed) (hchain : IsChain m₀.entries)
    (s : Settings) (hloss : ∀ n ∈ s.loseAckEvery, 2 ≤ n) (events : List Event)
    (hroom : m₀.entries.length + (newcomers (keysOf m₀.entries) events).length ≤
      18446744073709551616) (p : RetryPolicy) :
    let b₀ := ({ settings := s } : Broker).publishAll events
    ∃ r b m, Drained s events m₀ r b m ∧
      Consumer.run (Store.respond false) p b₀ m₀ = (.ok r, (b, m)) ∧
      ∀ rounds, b.stats.delivered ≤ rounds →
        (work p rounds {}).run (respond (Store.respond false)) (b₀, m₀) = (.ok r, (b, m)) := by
  intro b₀
  have hpublished : Broker.Published s events b₀ := Broker.published_publishAll s events
  obtain ⟨last, hlast, hle⟩ := Broker.exists_isLeast_settled hloss (copies s events)
  have hacked : b₀.stats.acked = 0 := by
    rw [hpublished.stats]
  have hfits : (events.foldl appendNew m₀.entries).length ≤ 18446744073709551616 := by
    obtain ⟨new, hnew, hevents⟩ := foldl_appendNew m₀.entries events
    rw [← hevents, List.length_map] at hroom
    rwa [hnew, List.length_append]
  obtain ⟨b, m, r, inv, hready, hend, hrun⟩ :=
    (Draining.start hm₀ hchain hpublished).run hfits hlast (by omega) p
  have hdrained : Drained s events m₀ r b m := inv.drained hready (by rwa [hend])
  refine ⟨r, b, m, hdrained, ?_, ?_⟩
  · apply hrun
    -- a worker is given rounds for twice as many deliveries as there are messages
    have hpending : b₀.pending = copies s events := by
      rw [Broker.pending, hpublished.length_ready, hpublished.inFlight]
      rfl
    have hrounds : 2 * copies s events ≤ roundsOf b₀ := by
      have hmore : 2 * copies s events + 1 ≤
          (2 * copies s events + 1) * (b₀.settings.maxDeliveries.toNat + 1) :=
        Nat.le_mul_of_pos_right _ (Nat.succ_pos _)
      rw [roundsOf, hpending]
      omega
    omega
  · intro rounds hrounds
    apply hrun
    rw [hdrained.delivered, hend] at hrounds
    omega

/-- A broker that doubles every third event and loses every second acknowledgement. -/
def stormy : Settings where
  duplicateEvery := some 3
  loseAckEvery := some 2

/-- A key that is committed, with something else under it, and a key that comes twice. -/
def traffic : List Event :=
  [.bare "first" "1", .bare "known" "2", .bare "second" "1", .bare "first" "2"]

/-- A store with one entry. -/
def oneKnown : MemoryStore :=
  .ofEntries (chainOf [.bare "known" "1"])

theorem worker_drains_storm :
    oneKnown.Indexed ∧ IsChain oneKnown.entries ∧ (∀ n ∈ stormy.loseAckEvery, 2 ≤ n) ∧
      oneKnown.entries.length + (newcomers (keysOf oneKnown.entries) traffic).length ≤
        18446744073709551616 ∧
      let b₀ := ({ settings := stormy } : Broker).publishAll traffic
      ∃ r b m, Drained stormy traffic oneKnown r b m ∧
        Consumer.run (Store.respond false) {} b₀ oneKnown = (.ok r, (b, m)) ∧
        r = ⟨2, 7, 0, 0⟩ ∧ b.stats.delivered = 9 ∧
        m.entries.map (fun e => (e.event.dedupKey.text, e.event.entityId)) =
          [("known", "1"), ("first", "1"), ("second", "1")] := by
  have hknown : IsChain (chainOf [.bare "known" "1"]) := isChain_chainOf (by decide) (by decide)
  have hindexed : oneKnown.Indexed :=
    MemoryStore.indexed_ofEntries hknown.toIsSlice.ascending hknown.keys
  have hchain : IsChain oneKnown.entries := by
    rw [oneKnown, MemoryStore.entries_ofEntries hknown.toIsSlice.ascending]
    exact hknown
  have hloss : ∀ n ∈ stormy.loseAckEvery, 2 ≤ n := by decide
  have hroom : oneKnown.entries.length + (newcomers (keysOf oneKnown.entries) traffic).length ≤
      18446744073709551616 := by decide +kernel
  obtain ⟨r, b, m, hdrained, hrun, -⟩ :=
    worker_drains hindexed hchain stormy hloss traffic hroom {}
  have hcomputed :
      let result := Consumer.run (Store.respond false) {}
        (({ settings := stormy } : Broker).publishAll traffic) oneKnown
      result.1.toOption = some ⟨2, 7, 0, 0⟩ ∧ result.2.1.stats.delivered = 9 ∧
        result.2.2.entries.map (fun e => (e.event.dedupKey.text, e.event.entityId)) =
          [("known", "1"), ("first", "1"), ("second", "1")] := by decide +kernel
  rw [hrun] at hcomputed
  obtain ⟨hr, hdelivered, hentries⟩ := hcomputed
  exact ⟨hindexed, hchain, hloss, hroom, r, b, m, hdrained, hrun, Option.some.inj hr, hdelivered,
    hentries⟩

end Consumer

end AuditChain
