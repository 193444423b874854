import AuditChain.Consumer
import AuditChain.Proofs.Store.Window

/-!
# What a broker keeps

A message leaves the queue only to be in flight, and those in flight only to be queued again, to be
put away, or to be gone because its delivery was acknowledged.  Tags are given once and for all; so
a delivery that is settled late, when its message has long been queued again, takes nothing away.

## Main definitions

* `Broker.Carries`, `Broker.Buried` — where an event is.
* `Broker.due` — how many of so many occasions go wrong.
* `Broker.Tagged` — the tags of what is in flight are distinct and were handed out.
* `Broker.Knows` — a delivery was handed out, and its tag still stands for its event.
* `Broker.Later` — what is in flight was so before, or was handed out since.
* `Consumer.Settles` — what a settlement does with the message of its delivery.

## Main results

* `Broker.receive_eq_some_iff` — what a delivery changes.
* `Consumer.Settlement.settles`, `Consumer.Settlement.apply_of_none` — what a settlement changes.
* `Consumer.Settlement.keeps` — **only an acknowledgement takes an event away**, and only that of
  its delivery.
-/

namespace AuditChain

namespace Broker

variable {b b' b'' : Broker} {event : Event} {m : Message} {d : Delivery} {tag : Nat}

/-! ### Where events are -/

/-- A copy of the event is queued or in flight. -/
def Carries (b : Broker) (event : Event) : Prop :=
  (∃ m ∈ b.ready, m.event = event) ∨ ∃ p ∈ b.inFlight, p.2.event = event

/-- The event was put away. -/
def Buried (b : Broker) (event : Event) : Prop :=
  ∃ x ∈ b.dead, x.event = event

/-- A broker in which nothing is pending carries nothing. -/
theorem not_carries_of_pending (hpending : b.pending = 0) (event : Event) : ¬b.Carries event := by
  obtain ⟨hready, hflight⟩ := Nat.add_eq_zero_iff.mp hpending
  rw [List.length_eq_zero_iff] at hready hflight
  rintro (⟨m, hm, -⟩ | ⟨p, hp, -⟩)
  · rw [hready] at hm
    cases hm
  · rw [hflight] at hp
    cases hp

/-- The tags of what is in flight are distinct, and none is above the last one. -/
structure Tagged (b : Broker) : Prop where
  /-- No two messages in flight share a tag. -/
  distinct : b.inFlight.Pairwise fun p q => p.1 ≠ q.1
  /-- The tags were handed out. -/
  bounded : ∀ p ∈ b.inFlight, p.1 ≤ b.lastTag

/-- The delivery was handed out, and its tag stands for its event as long as it is in flight. -/
structure Knows (b : Broker) (d : Delivery) : Prop where
  /-- The tag was handed out. -/
  bounded : d.tag ≤ b.lastTag
  /-- What is in flight under the tag is the event. -/
  event : ∀ p ∈ b.inFlight, p.1 = d.tag → p.2.event = d.event

/-- What is in flight later was in flight before, or was handed out in between. -/
structure Later (b b' : Broker) : Prop where
  /-- Tags go up. -/
  lastTag : b.lastTag ≤ b'.lastTag
  /-- No tag comes back. -/
  inFlight : ∀ p ∈ b'.inFlight, p ∈ b.inFlight ∨ b.lastTag < p.1

/-- What was known of a delivery goes on being so. -/
theorem Knows.later (h : b.Knows d) (hlater : b.Later b') : b'.Knows d where
  bounded := Nat.le_trans h.bounded hlater.lastTag
  event := by
    intro p hp htag
    rcases hlater.inFlight p hp with hp | hlt
    · exact h.event p hp htag
    · have := h.bounded
      omega

theorem Later.refl (b : Broker) : b.Later b where
  lastTag := Nat.le_refl _
  inFlight := fun _ hp => .inl hp

/-- Nothing new is in flight. -/
theorem Later.of_sublist (htag : b'.lastTag = b.lastTag) (hsub : b'.inFlight.Sublist b.inFlight) :
    b.Later b' where
  lastTag := Nat.le_of_eq htag.symm
  inFlight := fun _ hp => .inl (hsub.subset hp)

theorem Tagged.of_sublist (h : b.Tagged) (htag : b'.lastTag = b.lastTag)
    (hsub : b'.inFlight.Sublist b.inFlight) : b'.Tagged where
  distinct := h.distinct.sublist hsub
  bounded := by
    intro p hp
    rw [htag]
    exact h.bounded p (hsub.subset hp)

/-- What is found under a tag is in flight. -/
theorem mem_of_lookup (hm : b.inFlight.lookup tag = some m) : (tag, m) ∈ b.inFlight := by
  obtain ⟨before, after, hflight, -⟩ := List.lookup_eq_some_iff.mp hm
  rw [hflight]
  simp

/-- A tag in flight stands for one message. -/
theorem Tagged.eq_of_lookup (h : b.Tagged) (hm : b.inFlight.lookup tag = some m)
    {p : Nat × Message} (hp : p ∈ b.inFlight) (htag : p.1 = tag) : p = (tag, m) :=
  eq_of_pairwise_ne h.distinct hp (mem_of_lookup hm) htag

/-- A message in flight is found under its tag. -/
theorem Tagged.lookup_eq (h : b.Tagged) {p : Nat × Message} (hp : p ∈ b.inFlight) :
    b.inFlight.lookup p.1 = some p.2 := by
  cases hfound : b.inFlight.lookup p.1 with
  | none =>
    have hne := List.lookup_eq_none_iff.mp hfound p hp
    simp at hne
  | some m => rw [h.eq_of_lookup hfound hp rfl]

/-! ### How often things go wrong -/

/-- How many of the first `count` occasions are among every so many. -/
def due (every : Option Nat) (count : Nat) : Nat :=
  match every with
  | none => 0
  | some n => count / n

theorem due_zero (every : Option Nat) : due every 0 = 0 := by
  cases every with
  | none => rfl
  | some n => exact Nat.zero_div n

theorem due_succ (every : Option Nat) (count : Nat) :
    due every (count + 1) = due every count + if isDue every (count + 1) then 1 else 0 := by
  cases every with
  | none => rfl
  | some n => simp only [due, isDue, beq_iff_eq, Nat.succ_div, Nat.dvd_iff_mod_eq_zero]

theorem due_le (every : Option Nat) (count : Nat) : due every count ≤ count := by
  cases every with
  | none => exact Nat.zero_le count
  | some n => exact Nat.div_le_self count n

/-- Of two occasions in a row at most one goes wrong, unless each does. -/
theorem not_isDue_succ {every : Option Nat} (hevery : ∀ n ∈ every, 2 ≤ n) {count : Nat}
    (hdue : isDue every count = true) : isDue every (count + 1) = false := by
  cases every with
  | none => rfl
  | some n =>
    have hn := hevery n rfl
    simp only [isDue, beq_iff_eq, beq_eq_false_iff_ne] at hdue ⊢
    rw [Nat.add_mod, hdue, Nat.zero_add, Nat.mod_mod, Nat.mod_eq_of_lt hn]
    exact Nat.one_ne_zero

/-! ### Publications and deliveries -/

@[simp] theorem inFlight_publish : (b.publish event).inFlight = b.inFlight := by
  simp only [publish]
  split <;> rfl

@[simp] theorem lastTag_publish : (b.publish event).lastTag = b.lastTag := by
  simp only [publish]
  split <;> rfl

@[simp] theorem dead_publish : (b.publish event).dead = b.dead := by
  simp only [publish]
  split <;> rfl

/-- A publication leaves the queue as it is and adds the event at the end. -/
theorem ready_publish (b : Broker) (event : Event) :
    ∃ copies, (b.publish event).ready = b.ready ++ ⟨event, 0⟩ :: copies := by
  simp only [publish]
  split
  · exact ⟨[⟨event, 0⟩], rfl⟩
  · exact ⟨[], rfl⟩

theorem carries_publish : (b.publish event).Carries event := by
  obtain ⟨copies, hready⟩ := ready_publish b event
  refine .inl ⟨⟨event, 0⟩, ?_, rfl⟩
  rw [hready]
  simp

theorem Carries.publish {x : Event} (h : b.Carries x) : (b.publish event).Carries x := by
  rcases h with ⟨m, hm, hx⟩ | hflight
  · obtain ⟨copies, hready⟩ := ready_publish b event
    refine .inl ⟨m, ?_, hx⟩
    rw [hready]
    exact List.mem_append_left _ hm
  · refine .inr ?_
    rwa [inFlight_publish]

/-- What a delivery changes: the first message of the queue is in flight under a new tag. -/
theorem receive_eq_some_iff : b.receive = some (d, b') ↔ ∃ m ready, b.ready = m :: ready ∧
    d = ⟨b.lastTag + 1, m.attempts + 1, m.event⟩ ∧
    b' = { b with
      ready
      inFlight := b.inFlight ++ [(b.lastTag + 1, { m with attempts := m.attempts + 1 })]
      lastTag := b.lastTag + 1
      stats := { b.stats with
        delivered := b.stats.delivered + 1
        redelivered := b.stats.redelivered + if 1 < m.attempts + 1 then 1 else 0 } } := by
  unfold receive
  cases hready : b.ready with
  | nil => simp
  | cons m ready =>
    constructor
    · intro h
      obtain ⟨rfl, rfl⟩ := Prod.mk.inj (Option.some.inj h)
      exact ⟨m, ready, rfl, rfl, rfl⟩
    · rintro ⟨_, _, heq, rfl, rfl⟩
      obtain ⟨rfl, rfl⟩ := List.cons.inj heq
      rfl

/-- There is nothing to hand out if nothing is queued, and only then. -/
theorem receive_eq_none_iff : b.receive = none ↔ b.ready = [] := by
  unfold receive
  split
  · rename_i hready
    exact iff_of_true rfl hready
  · rename_i hready
    simp [hready]

/-- What a delivery changes apart from the counters. -/
theorem receive_cases (h : b.receive = some (d, b')) : ∃ m ready, b.ready = m :: ready ∧
    d = ⟨b.lastTag + 1, m.attempts + 1, m.event⟩ ∧ b'.ready = ready ∧
    b'.inFlight = b.inFlight ++ [(b.lastTag + 1, { m with attempts := m.attempts + 1 })] ∧
    b'.lastTag = b.lastTag + 1 ∧ b'.dead = b.dead := by
  obtain ⟨m, ready, hready, rfl, rfl⟩ := receive_eq_some_iff.mp h
  exact ⟨m, ready, hready, rfl, rfl, rfl, rfl, rfl⟩

section Receive

variable (h : b.receive = some (d, b'))

include h

theorem later_of_receive : b.Later b' := by
  obtain ⟨m, ready, -, -, -, hflight, htag, -⟩ := receive_cases h
  refine ⟨by omega, ?_⟩
  rw [hflight]
  intro p hp
  rcases List.mem_append.mp hp with hp | hp
  · exact .inl hp
  · rw [List.mem_singleton.mp hp]
    exact .inr (Nat.lt_succ_self _)

/-- The new tag is above all others. -/
theorem Tagged.receive (hb : b.Tagged) : b'.Tagged := by
  obtain ⟨m, ready, -, -, -, hflight, htag, -⟩ := receive_cases h
  have hlt : ∀ p ∈ b.inFlight, p.1 < b.lastTag + 1 := fun p hp =>
    Nat.lt_succ_of_le (hb.bounded p hp)
  constructor
  · rw [hflight, List.pairwise_append]
    refine ⟨hb.distinct, List.pairwise_singleton _ _, ?_⟩
    intro p hp q hq
    rw [List.mem_singleton.mp hq]
    exact Nat.ne_of_lt (hlt p hp)
  · rw [hflight, htag]
    intro p hp
    rcases List.mem_append.mp hp with hp | hp
    · exact Nat.le_of_lt (hlt p hp)
    · exact Nat.le_of_eq (congrArg Prod.fst (List.mem_singleton.mp hp))

/-- The broker knows what it has handed out. -/
theorem knows_of_receive (hb : b.Tagged) : b'.Knows d := by
  obtain ⟨m, ready, -, rfl, -, hflight, htag, -⟩ := receive_cases h
  refine ⟨Nat.le_of_eq htag.symm, ?_⟩
  rw [hflight]
  intro p hp heq
  rcases List.mem_append.mp hp with hp | hp
  · have hle := hb.bounded p hp
    have heq : p.1 = b.lastTag + 1 := heq
    omega
  · rw [List.mem_singleton.mp hp]

/-- A delivery takes no event away. -/
theorem Carries.receive {x : Event} (hx : b.Carries x) : b'.Carries x := by
  obtain ⟨m, ready, hready, -, hready', hflight, -, -⟩ := receive_cases h
  rw [Carries, hready', hflight]
  rcases hx with ⟨n, hn, rfl⟩ | ⟨p, hp, rfl⟩
  · rw [hready] at hn
    rcases List.mem_cons.mp hn with rfl | hn
    · exact .inr ⟨_, List.mem_append_right _ List.mem_cons_self, rfl⟩
    · exact .inl ⟨n, hn, rfl⟩
  · exact .inr ⟨p, List.mem_append_left _ hp, rfl⟩

theorem dead_receive : b'.dead = b.dead := by
  obtain ⟨-, -, -, -, -, -, -, hdead⟩ := receive_cases h
  exact hdead

end Receive

/-! ### Messages queued again -/

/-- All messages in flight are queued again, in any order. -/
def redeliverIn (b : Broker) (flight : List (Nat × Message)) : Broker :=
  { b with inFlight := flight }.redeliverUnacked

/-- To queue messages again takes no event away. -/
theorem Carries.redeliverIn {x : Event} (hx : b.Carries x) {flight : List (Nat × Message)}
    (hflight : flight.Perm b.inFlight) : (b.redeliverIn flight).Carries x := by
  refine .inl ?_
  show ∃ m ∈ b.ready ++ flight.map Prod.snd, m.event = x
  rcases hx with ⟨m, hm, rfl⟩ | ⟨p, hp, rfl⟩
  · exact ⟨m, List.mem_append_left _ hm, rfl⟩
  · exact ⟨p.2, List.mem_append_right _ (List.mem_map_of_mem (hflight.mem_iff.mpr hp)), rfl⟩

/-! ### Settlements -/

/-- What is in flight under other tags. -/
def others (b : Broker) (tag : Nat) : List (Nat × Message) :=
  b.inFlight.filter fun p => p.1 != tag

/-- What is in flight is the message under a tag and the others. -/
theorem Tagged.perm_others (h : b.Tagged) (hm : b.inFlight.lookup tag = some m) :
    b.inFlight.Perm ((tag, m) :: b.others tag) := by
  obtain ⟨before, after, hflight, hbefore⟩ := List.lookup_eq_some_iff.mp hm
  have hdistinct := h.distinct
  rw [hflight, List.pairwise_append, List.pairwise_cons] at hdistinct
  obtain ⟨-, ⟨hafter, -⟩, -⟩ := hdistinct
  have hothers : b.others tag = before ++ after := by
    rw [others, hflight, List.filter_append, List.filter_cons_of_neg (by simp)]
    congr 1
    · exact List.filter_eq_self.mpr fun p hp => bne_comm.trans (hbefore p hp)
    · exact List.filter_eq_self.mpr fun p hp => by simpa using Ne.symm (hafter p hp)
  rw [hothers, hflight]
  exact List.perm_middle

/-- The message under a tag is taken out of those in flight. -/
structure Takes (b : Broker) (tag : Nat) (m : Message) (b' : Broker) : Prop where
  /-- The message is in flight under the tag. -/
  found : b.inFlight.lookup tag = some m
  /-- All others stay. -/
  inFlight : b'.inFlight = b.others tag
  /-- No tag is handed out. -/
  lastTag : b'.lastTag = b.lastTag

/-- What was carried still is, but for the event that was taken. -/
theorem Takes.carries (h : b.Takes tag m b') (hb : b.Tagged) (hready : b.ready ⊆ b'.ready)
    {x : Event} (hx : b.Carries x) : b'.Carries x ∨ m.event = x := by
  rcases hx with ⟨n, hn, rfl⟩ | ⟨p, hp, rfl⟩
  · exact .inl (.inl ⟨n, hready hn, rfl⟩)
  · by_cases htag : p.1 = tag
    · rw [hb.eq_of_lookup h.found hp htag]
      exact .inr rfl
    · refine .inl (.inr ⟨p, ?_, rfl⟩)
      rw [h.inFlight, others, List.mem_filter]
      exact ⟨hp, by simpa using htag⟩

end Broker

namespace Consumer

open Broker

variable {b : Broker}

/-- What a settlement does with a message that it finds in flight under its tag. -/
inductive Settles (b : Broker) (tag : Nat) (m : Message) : Settlement → Broker → Prop where
  /-- The acknowledgement arrives, and the message is gone. -/
  | done (hdue : isDue b.settings.loseAckEvery (b.stats.acked + 1) = false) :
    Settles b tag m .ack { b with
      inFlight := b.others tag
      stats := { b.stats with acked := b.stats.acked + 1 } }
  /-- The acknowledgement is lost, and the message is queued again. -/
  | lost (hdue : isDue b.settings.loseAckEvery (b.stats.acked + 1) = true) :
    Settles b tag m .ack { b with
      ready := b.ready ++ [m]
      inFlight := b.others tag
      stats := { b.stats with acked := b.stats.acked + 1, acksLost := b.stats.acksLost + 1 } }
  /-- The message is refused, and queued again. -/
  | refused (reason : String) (hleft : m.attempts < b.settings.maxDeliveries) :
    Settles b tag m (.nack reason) { b with
      ready := b.ready ++ [m]
      inFlight := b.others tag
      stats := { b.stats with nacked := b.stats.nacked + 1 } }
  /-- The message is refused once too often, and put away. -/
  | exhausted (reason : String) (hspent : b.settings.maxDeliveries ≤ m.attempts) :
    Settles b tag m (.nack reason) { b with
      inFlight := b.others tag
      dead := b.dead ++ [⟨m.event, m.attempts, s!"delivery attempts exhausted: {reason}"⟩]
      stats := { b.stats with
        nacked := b.stats.nacked + 1, deadLettered := b.stats.deadLettered + 1 } }
  /-- The message is put away. -/
  | buried (reason : String) :
    Settles b tag m (.deadLetter reason) { b with
      inFlight := b.others tag
      dead := b.dead ++ [⟨m.event, m.attempts, reason⟩]
      stats := { b.stats with deadLettered := b.stats.deadLettered + 1 } }

/-- All else stays as it is. -/
theorem Settles.frame {tag : Nat} {m : Message} {s : Settlement} {b' : Broker}
    (h : Settles b tag m s b') : b'.settings = b.settings ∧ b'.inFlight = b.others tag ∧
      b'.lastTag = b.lastTag ∧ b'.stats = { b.stats with
        acked := b'.stats.acked
        acksLost := b'.stats.acksLost
        nacked := b'.stats.nacked
        deadLettered := b'.stats.deadLettered } := by
  cases h <;> exact ⟨rfl, rfl, rfl, rfl⟩

/-- A delivery that is not in flight changes nothing. -/
theorem Settlement.apply_of_none (s : Settlement) {tag : Nat}
    (hnone : b.inFlight.lookup tag = none) : s.apply b tag = b := by
  have htake : b.take? tag = none := by rw [take?, hnone]; rfl
  cases s <;> simp only [apply, Broker.ack, Broker.nack, Broker.deadLetter, htake]

/-- Of a delivery that is in flight, the message is queued again, put away, or gone. -/
theorem Settlement.settles (s : Settlement) {tag : Nat} {m : Message}
    (hfound : b.inFlight.lookup tag = some m) : Settles b tag m s (s.apply b tag) := by
  have htake : b.take? tag = some (m, { b with inFlight := b.others tag }) := by
    rw [take?, hfound]
    rfl
  cases s with
  | ack =>
    simp only [apply, Broker.ack, htake]
    split
    · rename_i hlost
      exact .lost hlost
    · rename_i hkept
      exact .done (eq_false_of_ne_true hkept)
  | nack reason =>
    simp only [apply, Broker.nack, htake]
    split
    · rename_i hspent
      exact .exhausted reason hspent
    · rename_i hleft
      exact .refused reason (UInt32.not_le.mp hleft)
  | deadLetter reason =>
    simp only [apply, Broker.deadLetter, htake]
    exact .buried reason

/-- A settlement does something if its delivery is in flight, and only then. -/
theorem Settlement.apply_ne_iff (s : Settlement) (b : Broker) (tag : Nat) :
    s.apply b tag ≠ b ↔ tag ∈ b.inFlight.map Prod.fst := by
  cases hfound : b.inFlight.lookup tag with
  | none =>
    rw [s.apply_of_none hfound]
    refine iff_of_false (not_not_intro rfl) ?_
    intro hmem
    obtain ⟨p, hp, rfl⟩ := List.mem_map.mp hmem
    have hne := List.lookup_eq_none_iff.mp hfound p hp
    simp at hne
  | some m =>
    refine iff_of_true ?_ (List.mem_map_of_mem (mem_of_lookup hfound))
    -- the message is in flight no more
    intro heq
    have hmem := mem_of_lookup hfound
    rw [← heq, (s.settles hfound).frame.2.1] at hmem
    simp [others] at hmem

/-- What a settlement changes apart from the counters. -/
theorem Settlement.apply_cases (s : Settlement) (b : Broker) (tag : Nat) : s.apply b tag = b ∨
    ∃ m, b.Takes tag m (s.apply b tag) ∧
      ((s.apply b tag).ready = b.ready ++ [m] ∧ (s.apply b tag).dead = b.dead ∨
      (s.apply b tag).ready = b.ready ∧
        (∃ reason, (s.apply b tag).dead = b.dead ++ [⟨m.event, m.attempts, reason⟩]) ∨
      s = .ack ∧ (s.apply b tag).ready = b.ready ∧ (s.apply b tag).dead = b.dead) := by
  cases hfound : b.inFlight.lookup tag with
  | none => exact .inl (s.apply_of_none hfound)
  | some m =>
    refine .inr ⟨m, ?_⟩
    have hsettles := s.settles hfound
    generalize s.apply b tag = b' at hsettles
    cases hsettles with
    | done => exact ⟨⟨hfound, rfl, rfl⟩, .inr (.inr ⟨rfl, rfl, rfl⟩)⟩
    | lost => exact ⟨⟨hfound, rfl, rfl⟩, .inl ⟨rfl, rfl⟩⟩
    | refused => exact ⟨⟨hfound, rfl, rfl⟩, .inl ⟨rfl, rfl⟩⟩
    | exhausted => exact ⟨⟨hfound, rfl, rfl⟩, .inr (.inl ⟨rfl, _, rfl⟩)⟩
    | buried => exact ⟨⟨hfound, rfl, rfl⟩, .inr (.inl ⟨rfl, _, rfl⟩)⟩

/-- A settlement puts nothing in flight. -/
theorem Settlement.inFlight_apply (s : Settlement) (b : Broker) (tag : Nat) :
    (s.apply b tag).lastTag = b.lastTag ∧ (s.apply b tag).inFlight.Sublist b.inFlight := by
  rcases s.apply_cases b tag with heq | ⟨m, htakes, -⟩
  · rw [heq]
    exact ⟨rfl, List.Sublist.refl _⟩
  · rw [htakes.inFlight]
    exact ⟨htakes.lastTag, List.filter_sublist⟩

/-- **Only an acknowledgement takes an event away**, and only the one that is in flight under its
tag. -/
theorem Settlement.keeps (s : Settlement) (tag : Nat) (hb : b.Tagged) {x : Event}
    (hx : b.Carries x ∨ b.Buried x) : (s.apply b tag).Carries x ∨ (s.apply b tag).Buried x ∨
      s = .ack ∧ ∃ m, b.inFlight.lookup tag = some m ∧ m.event = x := by
  rcases s.apply_cases b tag with heq | ⟨m, htakes, hfate⟩
  · rw [heq]
    exact hx.imp_right .inl
  · have hready : b.ready ⊆ (s.apply b tag).ready := by
      rcases hfate with ⟨hready, -⟩ | ⟨hready, -⟩ | ⟨-, hready, -⟩ <;> rw [hready]
      · exact List.subset_append_left _ _
      · exact List.Subset.refl _
      · exact List.Subset.refl _
    have hdead : b.dead ⊆ (s.apply b tag).dead := by
      rcases hfate with ⟨-, hdead⟩ | ⟨-, reason, hdead⟩ | ⟨-, -, hdead⟩ <;> rw [hdead]
      · exact List.Subset.refl _
      · exact List.subset_append_left _ _
      · exact List.Subset.refl _
    rcases hx with hx | ⟨y, hy, rfl⟩
    · rcases htakes.carries hb hready hx with hx | rfl
      · exact .inl hx
      · -- the event was taken: the message is queued again, put away, or acknowledged
        rcases hfate with ⟨hready, -⟩ | ⟨-, reason, hdead⟩ | ⟨rfl, -, -⟩
        · refine .inl (.inl ⟨m, ?_, rfl⟩)
          rw [hready]
          simp
        · refine .inr (.inl ⟨⟨m.event, m.attempts, reason⟩, ?_, rfl⟩)
          rw [hdead]
          simp
        · exact .inr (.inr ⟨rfl, m, htakes.found, rfl⟩)
    · exact .inr (.inl ⟨y, hdead hy, rfl⟩)

end Consumer

end AuditChain
