import AuditChain.Proofs.Broker
import AuditChain.Proofs.Chain
import Mathlib.Data.List.Dedup
import Mathlib.Logic.Relation

/-!
# A broker conserves messages

An event is queued in one copy, or in two; a copy is handed out and comes back any number of times,
until it is put away or its acknowledgement arrives.  To tell the copies apart, they are numbered
beside the broker, which knows nothing of it: where a copy goes is read off what the broker does
with its message.

Whoever settles a delivery may do so late, twice, or without having received it, and all that is in
flight may be queued again at any time.  Still every copy is in one place, and the counters say how
many are where.

## Main definitions

* `Broker.Copy`, `Broker.Tracked` — the copies of events, and a broker with their history.
* `Broker.Tracked.Step`, `Broker.Tracked.Reachable` — what may be done to a broker.
* `Broker.doubled` — the events in so many copies as are queued.
* `Broker.Tracked.Sound` — what every step preserves.
* `Broker.Conserved` — the law of conservation.

## Main results

* `Broker.Tracked.Sound.step`, `Broker.Tracked.Sound.of_reachable` — one step, and all of them.
* `Broker.conserved` — **a broker conserves messages.**
-/

namespace AuditChain.Broker

open Consumer (Settlement Settles)

/-! ### Copies -/

/-- One of the copies in which an event was queued when it was published. -/
structure Copy where
  /-- So many copies were queued before it. -/
  number : Nat
  /-- The event. -/
  event : Event
  deriving DecidableEq, Repr

/-- A broker with the history of its copies. -/
structure Tracked where
  /-- The broker. -/
  broker : Broker
  /-- The events that were published, in order. -/
  published : List Event := []
  /-- The copies in which they were queued, in order. -/
  copies : List Copy := []
  /-- The copies that are queued, the first first. -/
  queued : List Copy := []
  /-- Which copy was handed out under which tag, the last first. -/
  handed : List (Nat × Copy) := []
  /-- The tags whose settlement did something, the last first. -/
  settled : List Nat := []
  /-- The copies that were put away. -/
  buried : List Copy := []
  /-- The copies that are gone for good, since their acknowledgement arrived. -/
  done : List Copy := []

namespace Tracked

/-- How many times a copy was handed out. -/
def times (t : Tracked) (c : Copy) : Nat :=
  t.handed.countP fun p => p.2 = c

/-- The copy that was handed out under a tag. -/
def under? (t : Tracked) (tag : Nat) : Option Copy :=
  t.handed.lookup tag

/-- The copies that are in flight. -/
def flying (t : Tracked) : List Copy :=
  t.broker.inFlight.filterMap fun p => t.under? p.1

/-- How many times a copy was handed out, as a broker counts it. -/
def count (t : Tracked) (c : Copy) : UInt32 :=
  UInt32.ofNat (t.times c)

/-- The count is right until there is no word for it. -/
theorem toNat_count {t : Tracked} {c : Copy} (h : t.times c < UInt32.size) :
    (t.count c).toNat = t.times c :=
  UInt32.toNat_ofNat_of_lt' h

/-- The message that a copy makes. -/
def message (t : Tracked) (c : Copy) : Message :=
  ⟨c.event, t.count c⟩

/-- An event is published.  What the queue has gained are the new copies. -/
def publish (t : Tracked) (event : Event) : Tracked :=
  let broker := t.broker.publish event
  let gained := broker.ready.drop t.broker.ready.length
  let copies := (gained.zipIdx t.copies.length).map fun p => ⟨p.2, p.1.event⟩
  { t with
    broker
    published := t.published ++ [event]
    copies := t.copies ++ copies
    queued := t.queued ++ copies }

/-- The first copy of the queue is handed out. -/
def receive (t : Tracked) (d : Delivery) (broker : Broker) : Tracked :=
  match t.queued with
  | [] => { t with broker }
  | c :: queued => { t with broker, queued, handed := (d.tag, c) :: t.handed }

/-- A delivery is settled.  If that does anything, its copy goes where the broker has gained a
message. -/
def settle (t : Tracked) (tag : Nat) (s : Settlement) : Tracked :=
  let broker := s.apply t.broker tag
  let copy := (t.under? tag).toList
  if broker = t.broker then t
  else if t.broker.ready.length < broker.ready.length then
    { t with broker, settled := tag :: t.settled, queued := t.queued ++ copy }
  else if t.broker.dead.length < broker.dead.length then
    { t with broker, settled := tag :: t.settled, buried := t.buried ++ copy }
  else { t with broker, settled := tag :: t.settled, done := t.done ++ copy }

/-- All that is in flight is queued again, in the given order. -/
def redeliver (t : Tracked) (flight : List (Nat × Message)) : Tracked :=
  { t with
    broker := t.broker.redeliverIn flight
    queued := t.queued ++ flight.filterMap fun p => t.under? p.1 }

/-- What may be done to a broker. -/
inductive Step : Tracked → Tracked → Prop where
  /-- An event is published. -/
  | publish (t : Tracked) (event : Event) : Step t (t.publish event)
  /-- A message is handed out. -/
  | receive {t : Tracked} {d : Delivery} {b : Broker} (hreceive : t.broker.receive = some (d, b)) :
    Step t (t.receive d b)
  /-- A delivery is settled, or anything that is taken for one. -/
  | settle (t : Tracked) (tag : Nat) (s : Settlement) : Step t (t.settle tag s)
  /-- All that is in flight is queued again; in which order, is left open. -/
  | redeliver (t : Tracked) {flight : List (Nat × Message)}
    (hflight : flight.Perm t.broker.inFlight) : Step t (t.redeliver flight)

/-- A fresh broker. -/
def fresh (s : Settings) : Tracked where
  broker := { settings := s }

/-- What becomes of a fresh broker. -/
def Reachable (s : Settings) (t : Tracked) : Prop :=
  Relation.ReflTransGen Step (fresh s) t

end Tracked

/-! ### Publications -/

/-- In so many copies an event is queued that is published as the so-manieth. -/
def copiesAt (every : Option Nat) (number : Nat) : Nat :=
  if isDue every number then 2 else 1

/-- The events in so many copies as are queued: every so many come twice. -/
def doubled (every : Option Nat) (events : List Event) : List Event :=
  (events.zipIdx 1).flatMap fun p => List.replicate (copiesAt every p.2) p.1

theorem doubled_concat (every : Option Nat) (events : List Event) (event : Event) :
    doubled every (events ++ [event]) =
      doubled every events ++ List.replicate (copiesAt every (events.length + 1)) event := by
  rw [doubled, List.zipIdx_append, List.flatMap_append, doubled]
  simp [Nat.add_comm]

theorem length_doubled (every : Option Nat) (events : List Event) :
    (doubled every events).length = events.length + due every events.length := by
  induction events using List.reverseRecOn with
  | nil => simp [doubled, due_zero]
  | append_singleton events event ih =>
    rw [doubled_concat, List.length_append, ih, List.length_replicate, List.length_append,
      List.length_singleton, due_succ, copiesAt]
    split <;> omega

/-- What a publication changes. -/
theorem publish_eq (b : Broker) (event : Event) : b.publish event =
    { b with
      ready := b.ready ++
        List.replicate (copiesAt b.settings.duplicateEvery (b.stats.published + 1)) ⟨event, 0⟩
      stats := { b.stats with
        published := b.stats.published + 1
        duplicated := b.stats.duplicated +
          if isDue b.settings.duplicateEvery (b.stats.published + 1) then 1 else 0 } } := by
  unfold publish copiesAt
  dsimp only
  split <;> rfl

namespace Tracked

/-! ### What every step preserves -/

variable {s : Settings} {t t' : Tracked}

/-- What every step preserves: each copy is in one place, the messages there are those that the
copies make, and the counters say how many are where. -/
structure Sound (s : Settings) (t : Tracked) : Prop where
  settings : t.broker.settings = s
  /-- The tags of the broker are in order. -/
  tagged : t.broker.Tagged
  /-- The copies are numbered in order. -/
  numbers : t.copies.map Copy.number = List.range t.copies.length
  /-- They are those of the events that were published. -/
  events : t.copies.map Copy.event = doubled s.duplicateEvery t.published
  /-- Every copy is in one place. -/
  places : (t.queued ++ t.flying ++ t.buried ++ t.done).Perm t.copies
  /-- The messages are those of the copies, in the queue, -/
  ready : t.broker.ready = t.queued.map t.message
  /-- in flight, -/
  inFlight : ∀ p ∈ t.broker.inFlight, ∃ c, t.under? p.1 = some c ∧ p.2 = t.message c
  /-- and where they are put away. -/
  dead : t.broker.dead.map (fun x => (⟨x.event, x.attempts⟩ : Message)) = t.buried.map t.message
  /-- Nothing but copies was handed out. -/
  handed : ∀ p ∈ t.handed, p.2 ∈ t.copies
  /-- No tag was handed out twice, -/
  tags : (t.handed.map Prod.fst).Nodup
  /-- and none above the last one. -/
  bounded : ∀ p ∈ t.handed, p.1 ≤ t.broker.lastTag
  /-- No delivery was settled twice, -/
  once : t.settled.Nodup
  /-- nor one that was not handed out, -/
  given : ∀ tag ∈ t.settled, tag ∈ t.handed.map Prod.fst
  /-- and those that are in flight are not settled. -/
  unsettled : ∀ p ∈ t.broker.inFlight, p.1 ∉ t.settled
  published : t.broker.stats.published = t.published.length
  duplicated : t.broker.stats.duplicated = due s.duplicateEvery t.published.length
  delivered : t.broker.stats.delivered = t.handed.length
  /-- A copy that is handed out was handed out before, or not; the broker tells as long as it can
  count. -/
  redelivered : (∀ c, t.times c < UInt32.size) → t.handed.length =
    t.broker.stats.redelivered + (t.handed.map Prod.snd).dedup.length
  acked : t.broker.stats.acked = t.done.length + t.broker.stats.acksLost
  acksLost : t.broker.stats.acksLost = due s.loseAckEvery t.broker.stats.acked
  deadLettered : t.broker.stats.deadLettered = t.buried.length

theorem Sound.fresh (s : Settings) : Sound s (fresh s) where
  settings := rfl
  tagged := ⟨.nil, fun _ hp => absurd hp List.not_mem_nil⟩
  numbers := rfl
  events := rfl
  places := .nil
  ready := rfl
  inFlight := fun _ hp => absurd hp List.not_mem_nil
  dead := rfl
  handed := fun _ hp => absurd hp List.not_mem_nil
  tags := .nil
  bounded := fun _ hp => absurd hp List.not_mem_nil
  once := .nil
  given := fun _ hp => absurd hp List.not_mem_nil
  unsettled := fun _ hp => absurd hp List.not_mem_nil
  published := rfl
  duplicated := (due_zero _).symm
  delivered := rfl
  redelivered := fun _ => rfl
  acked := rfl
  acksLost := (due_zero _).symm
  deadLettered := rfl

/-- What stands under a tag was handed out under it. -/
theorem mem_handed {tag : Nat} {c : Copy} (hunder : t.under? tag = some c) :
    (tag, c) ∈ t.handed := by
  obtain ⟨before, after, hhanded, -⟩ := List.lookup_eq_some_iff.mp hunder
  rw [hhanded]
  simp

section Hand

variable {tag : Nat} {c : Copy} (h : t'.handed = (tag, c) :: t.handed)

/-- A copy was handed out before if it is among those that were. -/
theorem times_pos_iff : 0 < t.times c ↔ c ∈ t.handed.map Prod.snd := by
  simp [times, List.countP_pos_iff]

include h

theorem times_hand (x : Copy) : t'.times x = t.times x + if c = x then 1 else 0 := by
  simp only [times, h, List.countP_cons, decide_eq_true_eq]

/-- To hand out a copy changes its own message and no other. -/
theorem message_hand (x : Copy) :
    t'.message x = if c = x then ⟨c.event, t.count c + 1⟩ else t.message x := by
  rw [message, count, times_hand h]
  split
  · rename_i heq
    rw [← heq, UInt32.ofNat_add, UInt32.ofNat_one, count]
  · rfl

theorem map_message_hand {l : List Copy} (hl : c ∉ l) : l.map t'.message = l.map t.message := by
  refine List.map_congr_left fun x hx => ?_
  rw [message_hand h, if_neg]
  rintro rfl
  exact hl hx

/-- To hand out a copy changes what was handed out under its own tag and no other. -/
theorem under?_hand (k : Nat) : t'.under? k = if k = tag then some c else t.under? k := by
  rw [under?, h, List.lookup_cons, under?]
  split
  · rename_i hk
    rw [if_pos (eq_of_beq hk)]
  · rename_i hk
    rw [if_neg (ne_of_beq_false hk)]

theorem flying_hand {m : Message} (hflight : t'.broker.inFlight = t.broker.inFlight ++ [(tag, m)])
    (hnew : ∀ p ∈ t.broker.inFlight, p.1 ≠ tag) : t'.flying = t.flying ++ [c] := by
  rw [flying, hflight, List.filterMap_append, flying]
  congr 1
  · refine List.filterMap_congr fun p hp => ?_
    rw [under?_hand h, if_neg (hnew p hp)]
  · rw [List.filterMap_cons, under?_hand h, if_pos rfl]
    rfl

end Hand

namespace Sound

/-- No copy comes twice. -/
theorem nodup_copies (inv : Sound s t) : t.copies.Nodup := by
  have hnodup : (t.copies.map Copy.number).Nodup := by
    rw [inv.numbers]
    exact List.nodup_range
  exact hnodup.of_map

/-- A copy that was not queued yet was not handed out. -/
theorem times_eq_zero (inv : Sound s t) {c : Copy} (hc : c ∉ t.copies) : t.times c = 0 := by
  rw [times, List.countP_eq_zero]
  intro p hp heq
  rw [← of_decide_eq_true heq] at hc
  exact hc (inv.handed p hp)

/-- A copy that is put at the end of the copies was not queued yet. -/
theorem not_mem_of_le (inv : Sound s t) {c : Copy} (hc : t.copies.length ≤ c.number) :
    c ∉ t.copies := by
  intro hmem
  have hnumber := List.mem_map_of_mem (f := Copy.number) hmem
  rw [inv.numbers, List.mem_range] at hnumber
  omega

/-! ### A publication -/

/-- The messages of new copies are those that the queue has gained. -/
theorem message_new (inv : Sound s t) (event : Event) (k : Nat) :
    ((List.replicate k (⟨event, 0⟩ : Message)).zipIdx t.copies.length).map
      (fun p => t.message ⟨p.2, p.1.event⟩) = List.replicate k ⟨event, 0⟩ := by
  rw [List.eq_replicate_iff]
  refine ⟨by simp, ?_⟩
  intro m hm
  obtain ⟨p, hp, rfl⟩ := List.mem_map.mp hm
  obtain ⟨hle, -, hmessage⟩ := List.mem_zipIdx hp
  rw [List.getElem_replicate] at hmessage
  rw [message, count, inv.times_eq_zero (inv.not_mem_of_le hle), hmessage]
  rfl

theorem publish (inv : Sound s t) (event : Event) : Sound s (t.publish event) := by
  obtain ⟨k, hk⟩ : ∃ k, copiesAt s.duplicateEvery (t.published.length + 1) = k := ⟨_, rfl⟩
  have hbroker := publish_eq t.broker event
  rw [inv.settings, inv.published, hk] at hbroker
  have hgained : (t.broker.publish event).ready.drop t.broker.ready.length =
      List.replicate k ⟨event, 0⟩ := by
    rw [hbroker, List.drop_left]
  let new : List Copy := ((List.replicate k (⟨event, 0⟩ : Message)).zipIdx t.copies.length).map
    fun p => ⟨p.2, p.1.event⟩
  have hnew : t.publish event = { t with
      broker := t.broker.publish event
      published := t.published ++ [event]
      copies := t.copies ++ new
      queued := t.queued ++ new } := by
    rw [Tracked.publish, hgained]
  have hlength : new.length = k := by simp [new]
  have hevents : new.map Copy.event = List.replicate k event := by
    have hfirst : new.map Copy.event =
        (((List.replicate k (⟨event, 0⟩ : Message)).zipIdx t.copies.length).map Prod.fst).map
          Message.event := by simp only [new, List.map_map, Function.comp_def]
    rw [hfirst, List.zipIdx_map_fst, List.map_replicate]
  have hpublished : (t.published ++ [event]).length = t.published.length + 1 := List.length_append
  rw [hnew, hbroker]
  exact {
    settings := rfl
    tagged := ⟨inv.tagged.distinct, inv.tagged.bounded⟩
    numbers := by
      rw [List.map_append, inv.numbers, List.length_append, hlength, List.range_eq_range',
        List.range_eq_range', ← List.range'_append_1]
      simp [new, Function.comp_def]
    events := by
      rw [List.map_append, inv.events, doubled_concat, hk, hevents]
    places := by
      show (t.queued ++ new ++ t.flying ++ t.buried ++ t.done).Perm (t.copies ++ new)
      refine .trans ?_ (inv.places.append_right new)
      simp only [List.perm_iff_count, List.count_append]
      omega
    ready := by
      show t.broker.ready ++ _ = (t.queued ++ new).map t.message
      rw [List.map_append, inv.ready, List.map_map]
      exact congrArg (_ ++ ·) (inv.message_new event k).symm
    inFlight := inv.inFlight
    dead := inv.dead
    handed := fun p hp => List.mem_append_left _ (inv.handed p hp)
    tags := inv.tags
    bounded := inv.bounded
    once := inv.once
    given := inv.given
    unsettled := inv.unsettled
    published := hpublished.symm
    duplicated := by
      rw [hpublished, due_succ, ← inv.duplicated]
    delivered := inv.delivered
    redelivered := inv.redelivered
    acked := inv.acked
    acksLost := inv.acksLost
    deadLettered := inv.deadLettered }

/-! ### A delivery -/

/-- A message is in flight for every copy that is. -/
theorem exists_under (inv : Sound s t) {p : Nat × Message} (hp : p ∈ t.broker.inFlight) :
    ∃ c ∈ t.flying, t.under? p.1 = some c ∧ p.2 = t.message c := by
  obtain ⟨c, hc, hm⟩ := inv.inFlight p hp
  exact ⟨c, List.mem_filterMap.mpr ⟨p, hp, hc⟩, hc, hm⟩

theorem nodup_places (inv : Sound s t) : (t.queued ++ t.flying ++ t.buried ++ t.done).Nodup :=
  inv.places.nodup_iff.mpr inv.nodup_copies

/-- The first message of the queue is that of the first copy. -/
theorem exists_queued (inv : Sound s t) {m : Message} {ready : List Message}
    (hready : t.broker.ready = m :: ready) : ∃ c queued, t.queued = c :: queued ∧
      t.message c = m ∧ queued.map t.message = ready := by
  have hmap := inv.ready
  rw [hready] at hmap
  obtain ⟨c, queued, hqueued, hm, hrest⟩ := List.map_eq_cons_iff.mp hmap.symm
  exact ⟨c, queued, hqueued, hm, hrest⟩

theorem receive (inv : Sound s t) {d : Delivery} {b : Broker}
    (hreceive : t.broker.receive = some (d, b)) : Sound s (t.receive d b) := by
  have htagged := inv.tagged.receive hreceive
  obtain ⟨m, ready, hready, rfl, rfl⟩ := receive_eq_some_iff.mp hreceive
  obtain ⟨c, queued, hqueued, rfl, rfl⟩ := inv.exists_queued hready
  rw [Tracked.receive, hqueued]
  -- the copy is nowhere but at the head of the queue, so no other message changes
  have hnodup := inv.nodup_places
  simp only [hqueued, List.cons_append, List.nodup_cons, List.mem_append, not_or] at hnodup
  obtain ⟨⟨⟨⟨hnqueued, hnflying⟩, hnburied⟩, -⟩, -⟩ := hnodup
  have hmem : c ∈ t.copies := inv.places.subset (by simp [hqueued])
  have hflight : ∀ p ∈ t.broker.inFlight, p.1 ≠ t.broker.lastTag + 1 := by
    intro p hp
    have hle := inv.tagged.bounded p hp
    omega
  have hhanded : t.broker.lastTag + 1 ∉ t.handed.map Prod.fst := by
    intro htag
    obtain ⟨p, hp, heq⟩ := List.mem_map.mp htag
    have hle := inv.bounded p hp
    omega
  exact {
    settings := inv.settings
    tagged := htagged
    numbers := inv.numbers
    events := inv.events
    places := by
      refine .trans ?_ inv.places
      rw [flying_hand rfl rfl hflight, hqueued]
      simp only [List.perm_iff_count, List.count_append, List.count_cons, List.count_nil]
      omega
    ready := (map_message_hand rfl hnqueued).symm
    inFlight := by
      intro p hp
      rcases List.mem_append.mp hp with hp | hp
      · obtain ⟨x, hx, hunder, heq⟩ := inv.exists_under hp
        refine ⟨x, ?_, heq.trans (Eq.trans (message_hand rfl x) (if_neg ?_)).symm⟩
        · exact Eq.trans (under?_hand rfl _) ((if_neg (hflight p hp)).trans hunder)
        · rintro rfl
          exact hnflying hx
      · obtain rfl := List.mem_singleton.mp hp
        exact ⟨c, Eq.trans (under?_hand rfl _) (if_pos rfl),
          (Eq.trans (message_hand rfl c) (if_pos rfl)).symm⟩
    dead := inv.dead.trans (map_message_hand rfl hnburied).symm
    handed := List.forall_mem_cons.mpr ⟨hmem, inv.handed⟩
    tags := List.nodup_cons.mpr ⟨hhanded, inv.tags⟩
    bounded := List.forall_mem_cons.mpr
      ⟨Nat.le_refl _, fun p hp => Nat.le_succ_of_le (inv.bounded p hp)⟩
    once := inv.once
    given := fun tag htag => List.mem_cons_of_mem _ (inv.given tag htag)
    unsettled := by
      intro p hp
      rcases List.mem_append.mp hp with hp | hp
      · exact inv.unsettled p hp
      · obtain rfl := List.mem_singleton.mp hp
        exact fun hsettled => hhanded (inv.given _ hsettled)
    published := inv.published
    duplicated := inv.duplicated
    delivered := congrArg (· + 1) inv.delivered
    redelivered := by
      intro hroom
      show t.handed.length + 1 = (t.broker.stats.redelivered + if 1 < t.count c + 1 then 1 else 0) +
        (c :: t.handed.map Prod.snd).dedup.length
      have hredelivered := inv.redelivered fun x => by
        have hx := hroom x
        rw [times_hand rfl] at hx
        omega
      have hc := hroom c
      rw [times_hand rfl, if_pos rfl] at hc
      have hagain : 1 < t.count c + 1 ↔ c ∈ t.handed.map Prod.snd := by
        rw [← times_pos_iff, count, UInt32.lt_iff_toNat_lt, ← UInt32.ofNat_one, ← UInt32.ofNat_add,
          UInt32.toNat_ofNat_of_lt' hc, UInt32.toNat_ofNat_of_lt' (by decide)]
        omega
      simp only [hagain]
      by_cases hbefore : c ∈ t.handed.map Prod.snd
      · rw [if_pos hbefore, List.dedup_cons_of_mem hbefore]
        omega
      · rw [if_neg hbefore, List.dedup_cons_of_notMem hbefore, List.length_cons]
        omega
    acked := inv.acked
    acksLost := inv.acksLost
    deadLettered := inv.deadLettered }

/-! ### A settlement -/

section Settle

variable {tag : Nat} {c : Copy}

/-- What is in flight is the copy under the tag and those under the other tags. -/
theorem perm_flying (inv : Sound s t) (hfound : t.broker.inFlight.lookup tag = some (t.message c))
    (hunder : t.under? tag = some c) :
    t.flying.Perm (c :: (t.broker.others tag).filterMap fun p => t.under? p.1) := by
  have hperm := (inv.tagged.perm_others hfound).filterMap fun p => t.under? p.1
  rwa [List.filterMap_cons, hunder] at hperm

/-- A copy that was in flight is put somewhere else, and the counters say where. -/
theorem put (inv : Sound s t) (hfound : t.broker.inFlight.lookup tag = some (t.message c))
    (hunder : t.under? tag = some c) {x : Settlement} {b : Broker}
    (hsettles : Settles t.broker tag (t.message c) x b) {queued buried done : List Copy}
    (hready : b.ready = queued.map t.message)
    (hdead : b.dead.map (fun x => (⟨x.event, x.attempts⟩ : Message)) = buried.map t.message)
    (hplaces : (queued ++ buried ++ done).Perm (c :: (t.queued ++ t.buried ++ t.done)))
    (hacked : b.stats.acked = done.length + b.stats.acksLost)
    (hlost : b.stats.acksLost = due s.loseAckEvery b.stats.acked)
    (hburied : b.stats.deadLettered = buried.length) :
    Sound s { t with broker := b, settled := tag :: t.settled, queued, buried, done } := by
  obtain ⟨hsettings, hflight, htag, hstats⟩ := hsettles.frame
  have hsublist : b.inFlight.Sublist t.broker.inFlight := hflight ▸ List.filter_sublist
  exact {
    settings := hsettings.trans inv.settings
    tagged := inv.tagged.of_sublist htag hsublist
    numbers := inv.numbers
    events := inv.events
    places := by
      show (queued ++ (b.inFlight.filterMap fun p => t.under? p.1) ++ buried ++ done).Perm t.copies
      refine .trans ?_ inv.places
      have hflying := inv.perm_flying hfound hunder
      rw [hflight]
      simp only [List.perm_iff_count, List.count_append, List.count_cons] at hplaces hflying ⊢
      intro x
      have hplaces := hplaces x
      have hflying := hflying x
      omega
    ready := hready
    inFlight := fun p hp => inv.inFlight p (hsublist.subset hp)
    dead := hdead
    handed := inv.handed
    tags := inv.tags
    bounded := fun p hp => htag ▸ inv.bounded p hp
    once := List.nodup_cons.mpr ⟨inv.unsettled _ (mem_of_lookup hfound), inv.once⟩
    given := by
      refine List.forall_mem_cons.mpr ⟨?_, inv.given⟩
      exact List.mem_map_of_mem (f := Prod.fst) (mem_handed hunder)
    unsettled := by
      intro p hp hsettled
      rcases List.mem_cons.mp hsettled with htag | hsettled
      · have hp : p ∈ t.broker.others tag := hflight ▸ hp
        simp [others, htag] at hp
      · exact inv.unsettled p (hsublist.subset hp) hsettled
    published := (congrArg Stats.published hstats).trans inv.published
    duplicated := (congrArg Stats.duplicated hstats).trans inv.duplicated
    delivered := (congrArg Stats.delivered hstats).trans inv.delivered
    redelivered := by
      rw [hstats]
      exact inv.redelivered
    acked := hacked
    acksLost := hlost
    deadLettered := hburied }

/-- A copy that was in flight is queued again. -/
theorem put_back (inv : Sound s t) (hfound : t.broker.inFlight.lookup tag = some (t.message c))
    (hunder : t.under? tag = some c) {x : Settlement} {b : Broker}
    (hsettles : Settles t.broker tag (t.message c) x b)
    (hready : b.ready = t.broker.ready ++ [t.message c]) (hdead : b.dead = t.broker.dead)
    (hacked : b.stats.acked = t.done.length + b.stats.acksLost)
    (hlost : b.stats.acksLost = due s.loseAckEvery b.stats.acked)
    (hburied : b.stats.deadLettered = t.broker.stats.deadLettered) :
    Sound s { t with broker := b, settled := tag :: t.settled, queued := t.queued ++ [c] } := by
  refine inv.put hfound hunder hsettles ?_ ?_ ?_ hacked hlost (hburied.trans inv.deadLettered)
  · rw [hready, inv.ready, List.map_append]
    rfl
  · rw [hdead]
    exact inv.dead
  · simp only [List.perm_iff_count, List.count_append, List.count_cons, List.count_nil]
    omega

/-- A copy that was in flight is put away. -/
theorem put_away (inv : Sound s t) (hfound : t.broker.inFlight.lookup tag = some (t.message c))
    (hunder : t.under? tag = some c) {x : Settlement} {b : Broker}
    (hsettles : Settles t.broker tag (t.message c) x b) {reason : String}
    (hready : b.ready = t.broker.ready)
    (hdead : b.dead = t.broker.dead ++ [⟨c.event, t.count c, reason⟩])
    (hacked : b.stats.acked = t.done.length + b.stats.acksLost)
    (hlost : b.stats.acksLost = due s.loseAckEvery b.stats.acked)
    (hburied : b.stats.deadLettered = t.broker.stats.deadLettered + 1) :
    Sound s { t with broker := b, settled := tag :: t.settled, buried := t.buried ++ [c] } := by
  refine inv.put hfound hunder hsettles ?_ ?_ ?_ hacked hlost ?_
  · rw [hready]
    exact inv.ready
  · rw [hdead, List.map_append, List.map_append, inv.dead]
    rfl
  · simp only [List.perm_iff_count, List.count_append, List.count_cons, List.count_nil]
    omega
  · rw [hburied, inv.deadLettered, List.length_append]
    rfl

theorem settle (inv : Sound s t) (tag : Nat) (x : Settlement) : Sound s (t.settle tag x) := by
  cases hfound : t.broker.inFlight.lookup tag with
  | none =>
    rw [Tracked.settle, if_pos (x.apply_of_none hfound)]
    exact inv
  | some m =>
    obtain ⟨c, hunder, rfl⟩ : ∃ c, t.under? tag = some c ∧ m = t.message c :=
      inv.inFlight _ (mem_of_lookup hfound)
    have hsettles := x.settles hfound
    have hchanged := (x.apply_ne_iff t.broker tag).mpr (List.mem_map_of_mem (mem_of_lookup hfound))
    rw [Tracked.settle, hunder, if_neg hchanged]
    generalize x.apply t.broker tag = b at hsettles ⊢
    have hdue := due_succ t.broker.settings.loseAckEvery t.broker.stats.acked
    have hlost := inv.acksLost
    rw [← inv.settings] at hlost
    have hsettles' := hsettles
    cases hsettles with
    | done hkept =>
      rw [if_neg (Nat.lt_irrefl _), if_neg (Nat.lt_irrefl _)]
      refine inv.put hfound hunder hsettles' inv.ready inv.dead ?_ ?_ ?_ inv.deadLettered
      · simp only [Option.toList, List.perm_iff_count, List.count_append, List.count_cons,
          List.count_nil]
        omega
      · rw [inv.acked, Option.toList, List.length_append]
        exact Nat.add_right_comm ..
      · rw [if_neg (by rw [hkept]; exact Bool.false_ne_true)] at hdue
        rw [← inv.settings, hdue]
        exact hlost
    | lost hmissed =>
      rw [if_pos hmissed, ← hlost] at hdue
      rw [if_pos (by simp)]
      refine inv.put_back hfound hunder hsettles' rfl rfl (congrArg (· + 1) inv.acked) ?_ rfl
      rw [← inv.settings]
      exact hdue.symm
    | refused =>
      rw [if_pos (by simp)]
      exact inv.put_back hfound hunder hsettles' rfl rfl inv.acked inv.acksLost rfl
    | exhausted =>
      rw [if_neg (Nat.lt_irrefl _), if_pos (by simp)]
      exact inv.put_away hfound hunder hsettles' rfl rfl inv.acked inv.acksLost rfl
    | buried =>
      rw [if_neg (Nat.lt_irrefl _), if_pos (by simp)]
      exact inv.put_away hfound hunder hsettles' rfl rfl inv.acked inv.acksLost rfl

end Settle

/-! ### Messages queued again -/

/-- The messages of what is in flight are those of the copies. -/
theorem map_snd (inv : Sound s t) {flight : List (Nat × Message)}
    (hflight : flight ⊆ t.broker.inFlight) :
    flight.map Prod.snd = (flight.filterMap fun p => t.under? p.1).map t.message := by
  induction flight with
  | nil => rfl
  | cons p flight ih =>
    obtain ⟨hp, hflight⟩ := List.cons_subset.mp hflight
    obtain ⟨c, hc, hm⟩ := inv.inFlight p hp
    rw [List.map_cons, ih hflight, List.filterMap_cons, hc, hm, List.map_cons]

theorem redeliver (inv : Sound s t) {flight : List (Nat × Message)}
    (hflight : flight.Perm t.broker.inFlight) : Sound s (t.redeliver flight) := by
  have hmessages := inv.map_snd hflight.subset
  exact { inv with
    settings := inv.settings
    tagged := ⟨.nil, fun _ hp => absurd hp List.not_mem_nil⟩
    places := by
      refine .trans ?_ inv.places
      have hflying := hflight.filterMap fun p => t.under? p.1
      show (t.queued ++ flight.filterMap _ ++ [] ++ t.buried ++ t.done).Perm _
      rw [List.append_nil]
      exact ((hflying.append_left _).append_right _).append_right _
    ready := by
      show t.broker.ready ++ flight.map Prod.snd = List.map t.message (t.queued ++ _)
      rw [List.map_append, inv.ready, hmessages]
    inFlight := fun _ hp => absurd hp List.not_mem_nil
    dead := inv.dead
    bounded := inv.bounded
    unsettled := fun _ hp => absurd hp List.not_mem_nil }

/-! ### All steps -/

/-- **One step** keeps everything in its place. -/
theorem step (inv : Sound s t) (hstep : Step t t') : Sound s t' := by
  cases hstep with
  | publish event => exact inv.publish event
  | receive hreceive => exact inv.receive hreceive
  | settle tag x => exact inv.settle tag x
  | redeliver hflight => exact inv.redeliver hflight

/-- So do all steps from a fresh broker. -/
theorem of_reachable (hreach : Reachable s t) : Sound s t := by
  induction hreach with
  | refl => exact .fresh s
  | tail _ hstep ih => exact ih.step hstep

end Sound

end Tracked

/-! ### The law of conservation -/

/-- The law of conservation. -/
structure Conserved (s : Settings) (t : Tracked) : Prop where
  settings : t.broker.settings = s
  /-- Every copy is in one place: gone for good, put away, queued or in flight. -/
  places : (t.done ++ t.buried ++ t.queued ++ t.flying).Perm t.copies
  /-- No copy is another. -/
  distinct : t.copies.Nodup
  /-- So the events that were published, with those that were doubled, are those that are gone, were
  put away, are queued or are in flight. -/
  events : (doubled s.duplicateEvery t.published).Perm
    (t.done.map Copy.event ++ t.broker.dead.map DeadLetter.event ++
      t.broker.ready.map Message.event ++ t.broker.inFlight.map fun p => p.2.event)
  /-- The counters tell how many they are, -/
  counted : t.broker.stats.published = t.published.length ∧
    t.broker.stats.acked = t.done.length + t.broker.stats.acksLost ∧
    t.broker.stats.deadLettered = t.broker.dead.length ∧
    t.broker.stats.delivered = t.handed.length
  /-- and so they balance. -/
  balance : t.broker.stats.published + t.broker.stats.duplicated =
    (t.broker.stats.acked - t.broker.stats.acksLost) + t.broker.stats.deadLettered +
      t.broker.pending
  /-- Every so many publications were doubled, -/
  duplicated : t.broker.stats.duplicated = due s.duplicateEvery t.broker.stats.published
  /-- and every so many acknowledgements lost. -/
  acksLost : t.broker.stats.acksLost = due s.loseAckEvery t.broker.stats.acked
  /-- No tag was handed out twice, -/
  tags : (t.handed.map Prod.fst).Nodup
  /-- and no delivery was settled twice. -/
  once : t.settled.Nodup
  /-- What is in flight was handed out and is not settled, -/
  unsettled : ∀ tag ∈ t.broker.inFlight.map Prod.fst,
    tag ∈ t.handed.map Prod.fst ∧ tag ∉ t.settled
  /-- and to settle anything else does nothing. -/
  idle : ∀ (tag : Nat) (x : Settlement),
    x.apply t.broker tag ≠ t.broker ↔ tag ∈ t.broker.inFlight.map Prod.fst
  /-- A message that is refused is put away if its copy was handed out as often as may be, and is
  queued again if not, as long as the broker can count how often that was. -/
  refused : ∀ p ∈ t.broker.inFlight, ∃ c, (p.1, c) ∈ t.handed ∧ (t.times c < UInt32.size → ∀ reason,
    (s.maxDeliveries.toNat ≤ t.times c → (t.broker.nack p.1 reason).ready = t.broker.ready ∧
      (t.broker.nack p.1 reason).dead = t.broker.dead ++
        [⟨c.event, t.count c, s!"delivery attempts exhausted: {reason}"⟩]) ∧
    (t.times c < s.maxDeliveries.toNat → (t.broker.nack p.1 reason).dead = t.broker.dead ∧
      (t.broker.nack p.1 reason).ready = t.broker.ready ++ [⟨c.event, t.count c⟩]))
  /-- So many copies were handed out at least once as there were deliveries less redeliveries, as
  long as the broker can count how often each was. -/
  redelivered : (∀ c, t.times c < UInt32.size) → t.broker.stats.delivered =
    t.broker.stats.redelivered + (t.handed.map Prod.snd).dedup.length

/-- A message that is refused is put away if its copy was handed out as often as may be. -/
theorem Tracked.Sound.refused {s : Settings} {t : Tracked} (inv : Sound s t) {p : Nat × Message}
    (hp : p ∈ t.broker.inFlight) : ∃ c, (p.1, c) ∈ t.handed ∧ (t.times c < UInt32.size → ∀ reason,
      (s.maxDeliveries.toNat ≤ t.times c → (t.broker.nack p.1 reason).ready = t.broker.ready ∧
        (t.broker.nack p.1 reason).dead = t.broker.dead ++
          [⟨c.event, t.count c, s!"delivery attempts exhausted: {reason}"⟩]) ∧
      (t.times c < s.maxDeliveries.toNat → (t.broker.nack p.1 reason).dead = t.broker.dead ∧
        (t.broker.nack p.1 reason).ready = t.broker.ready ++ [⟨c.event, t.count c⟩])) := by
  obtain ⟨c, hunder, hm⟩ := inv.inFlight p hp
  have hfound : t.broker.inFlight.lookup p.1 = some (t.message c) := by
    rw [inv.tagged.lookup_eq hp, hm]
  refine ⟨c, mem_handed hunder, fun hroom reason => ?_⟩
  rw [← toNat_count hroom]
  have hsettles : Settles t.broker p.1 (t.message c) (.nack reason) (t.broker.nack p.1 reason) :=
    (Settlement.nack reason).settles hfound
  have hsettings := inv.settings
  generalize t.broker.nack p.1 reason = b at hsettles ⊢
  cases hsettles with
  | refused reason hleft =>
    rw [inv.settings, UInt32.lt_iff_toNat_lt] at hleft
    exact ⟨fun hspent => absurd hspent (Nat.not_le_of_lt hleft), fun _ => ⟨rfl, rfl⟩⟩
  | exhausted reason hspent =>
    rw [inv.settings, UInt32.le_iff_toNat_le] at hspent
    exact ⟨fun _ => ⟨rfl, rfl⟩, fun hleft => absurd hleft (Nat.not_lt_of_le hspent)⟩

/-- **A broker conserves messages.**  Whatever is done to a fresh broker, and however it doubles
publications, loses acknowledgements and gives up. -/
theorem conserved {s : Settings} {t : Tracked} (hreach : t.Reachable s) : Conserved s t := by
  have inv := Tracked.Sound.of_reachable hreach
  have hplaces : (t.done ++ t.buried ++ t.queued ++ t.flying).Perm t.copies := by
    refine .trans ?_ inv.places
    simp only [List.perm_iff_count, List.count_append]
    omega
  have hflight : t.broker.inFlight.map Prod.snd = t.flying.map t.message :=
    inv.map_snd (List.Subset.refl _)
  exact {
    settings := inv.settings
    places := hplaces
    distinct := inv.nodup_copies
    events := by
      have hready := congrArg (List.map Message.event) inv.ready
      have hdead := congrArg (List.map Message.event) inv.dead
      have hflight := congrArg (List.map Message.event) hflight
      simp only [List.map_map, Function.comp_def, Tracked.message] at hready hdead hflight
      rw [← inv.events, hready, hdead, hflight]
      refine (hplaces.map Copy.event).symm.trans (.of_eq ?_)
      simp only [List.map_append]
    counted := by
      have hlength := congrArg List.length inv.dead
      rw [List.length_map, List.length_map] at hlength
      exact ⟨inv.published, inv.acked, inv.deadLettered.trans hlength.symm, inv.delivered⟩
    balance := by
      have hcopies := congrArg List.length inv.events
      have hqueued := congrArg List.length inv.ready
      have hflying := congrArg List.length hflight
      have hall := hplaces.length_eq
      rw [List.length_map, length_doubled] at hcopies
      rw [List.length_map] at hqueued
      rw [List.length_map, List.length_map] at hflying
      simp only [List.length_append] at hall
      rw [pending, inv.published, inv.duplicated, inv.acked, inv.deadLettered]
      omega
    duplicated := by
      rw [inv.published]
      exact inv.duplicated
    acksLost := inv.acksLost
    tags := inv.tags
    once := inv.once
    unsettled := by
      intro tag htag
      obtain ⟨p, hp, rfl⟩ := List.mem_map.mp htag
      obtain ⟨c, hunder, -⟩ := inv.inFlight p hp
      exact ⟨List.mem_map_of_mem (f := Prod.fst) (Tracked.mem_handed hunder), inv.unsettled p hp⟩
    idle := fun tag x => x.apply_ne_iff t.broker tag
    refused := fun p hp => inv.refused hp
    redelivered := fun hroom => inv.delivered.trans (inv.redelivered hroom) }

/-! ### Calls -/

/-- One call of a broker. -/
inductive Call where
  | publish (event : Event)
  | receive
  | settle (tag : Nat) (s : Settlement)
  | redeliver

/-- A call; all that is in flight is queued in the order of the tags. -/
def Tracked.perform (t : Tracked) : Call → Tracked
  | .publish event => t.publish event
  | .receive =>
    match t.broker.receive with
    | none => t
    | some (d, b) => t.receive d b
  | .settle tag s => t.settle tag s
  | .redeliver => t.redeliver t.broker.inFlight

/-- What calls lead to is reachable. -/
theorem Tracked.Reachable.perform {s : Settings} {t : Tracked} (hreach : t.Reachable s)
    (calls : List Call) : (calls.foldl Tracked.perform t).Reachable s := by
  induction calls generalizing t with
  | nil => exact hreach
  | cons call calls ih =>
    apply ih
    cases call with
    | publish event => exact hreach.tail (.publish t event)
    | receive =>
      rw [Tracked.perform]
      split
      · exact hreach
      · rename_i d b hreceive
        exact hreach.tail (.receive hreceive)
    | settle tag x => exact hreach.tail (.settle t tag x)
    | redeliver => exact hreach.tail (.redeliver t (.refl _))

/-- Every second publication is doubled and every second acknowledgement lost; a message that is
refused at its second delivery is put away. -/
def shaky : Settings where
  duplicateEvery := some 2
  loseAckEvery := some 2
  maxDeliveries := 2

/-- Three events are queued in four copies, and settled in every way there is, also late, twice, and
without a delivery. -/
def dealings : List Call :=
  [.publish (.bare "first" "1"), .publish (.bare "second" "2"), .receive, .receive, .settle 1 .ack,
    .settle 1 .ack, .settle 9 .ack, .settle 2 .ack, .receive, .receive, .redeliver,
    .settle 3 (.nack "late"), .publish (.bare "third" "3"), .receive, .receive,
    .settle 5 (.nack "busy"), .settle 6 (.nack "busy"), .receive,
    .settle 7 (.deadLetter "malformed")]

theorem conserved_shaky :
    let t := dealings.foldl Tracked.perform (.fresh shaky)
    t.Reachable shaky ∧ t.broker.stats = ⟨3, 1, 7, 3, 2, 1, 2, 3⟩ ∧ t.broker.pending = 0 ∧
      Conserved shaky t := by
  intro t
  have hreach : t.Reachable shaky := Tracked.Reachable.perform .refl dealings
  have hstats : t.broker.stats = ⟨3, 1, 7, 3, 2, 1, 2, 3⟩ ∧ t.broker.pending = 0 := by
    decide +kernel
  exact ⟨hreach, hstats.1, hstats.2, conserved hreach⟩

end AuditChain.Broker
