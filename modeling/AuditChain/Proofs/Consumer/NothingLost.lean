import AuditChain.Proofs.Append.Agreement
import AuditChain.Proofs.Consumer.Protocol
import AuditChain.Proofs.Consumer.Site

/-!
# Nothing is lost

Consumers take deliveries from one broker and write to one store, while others publish, and put
messages that are in flight back into the queue.  An event is handed out as often as it takes, and
it may be in many hands at once; but it leaves the broker only when it is put away, or when an
acknowledgement finds it in flight under the tag of a delivery.  That delivery was of this event,
and the consumer acknowledges it only after the store has told of an entry under its key, which is
there to stay.

## Main definitions

* `storeMoves` — what the store sees of a run.
* `Committed` — the key of an event is that of an entry.
* `Sound` — what every move keeps true.

## Main results

* `Sound.stirs`, `Sound.serves` — one step of others, and one request answered.
* `Run.sound` — a run.
* `nothing_lost` — **no event is lost, and none is written twice.**
-/

namespace AuditChain.Consumer

open LawfulStore (Valid held)

variable {σ ι : Type}

/-! ### What the store sees -/

/-- A move as the store sees it, if it does. -/
def moveOnStore (m : Move shop ι (Site σ)) : Option (Move ledger ι σ) :=
  (onStore m.exchange).map fun x => ⟨m.who, m.before.store, x, m.after.store⟩

/-- What the store sees of a run. -/
def storeMoves (h : List (Move shop ι (Site σ))) : List (Move ledger ι σ) :=
  h.filterMap moveOnStore

/-- The store sees of a consumer what the consumer sees of the store. -/
theorem transcript_storeMoves [DecidableEq ι] (i : ι) (h : List (Move shop ι (Site σ))) :
    transcript i (storeMoves h) = (transcript i h).filterMap onStore := by
  induction h with
  | nil => rfl
  | cons m h ih =>
    rw [storeMoves, List.filterMap_cons]
    cases hx : onStore m.exchange with
    | none =>
      simp only [moveOnStore, hx, Option.map_none]
      by_cases hwho : m.who = i
      · rw [transcript_cons_of_eq hwho, List.filterMap_cons, hx]
        exact ih
      · rw [transcript_cons_of_ne hwho]
        exact ih
    | some x =>
      let n : Move ledger ι σ := ⟨m.who, m.before.store, x, m.after.store⟩
      have hn : moveOnStore m = some n := by
        rw [moveOnStore, hx]
        rfl
      rw [hn]
      show transcript i (n :: storeMoves h) = _
      by_cases hwho : m.who = i
      · have hwho' : n.who = i := hwho
        rw [transcript_cons_of_eq hwho, transcript_cons_of_eq hwho', List.filterMap_cons, hx, ih]
      · have hwho' : n.who ≠ i := hwho
        rw [transcript_cons_of_ne hwho, transcript_cons_of_ne hwho', ih]

/-! ### One step -/

/-- The key of the event is committed. -/
def Committed (es : List Entry) (event : Event) : Prop :=
  ∃ e ∈ es, e.event.dedupKey = event.dedupKey

theorem Committed.mono {es es' : List Entry} {event : Event} (h : Committed es event)
    (hsub : es ⊆ es') : Committed es' event := by
  obtain ⟨e, he, hkey⟩ := h
  exact ⟨e, hsub he, hkey⟩

variable [Store σ] [LawfulStore σ] {s₀ : σ} {s t : Site σ} {h : List (Move shop ι (Site σ))}

/-- What every move keeps true: the chain, the tags, and that every event is somewhere. -/
structure Sound (s₀ : σ) (h : List (Move shop ι (Site σ))) (s : Site σ) : Prop where
  /-- The store holds a chain. -/
  chained : Chained s₀ (storeMoves h) s.store
  /-- The tags of the broker are in order. -/
  tagged : s.broker.Tagged
  /-- The broker knows what it has handed out. -/
  knows : ∀ m ∈ h, ∀ d, m.exchange = ⟨.receive, some d⟩ → s.broker.Knows d
  /-- Every event that was published is in the broker, committed, or put away. -/
  kept : ∀ event ∈ s.published, s.broker.Carries event ∨ Committed (held s.store) event ∨
    s.broker.Buried event

/-- Consumers have done nothing yet. -/
theorem Sound.start {settings : Broker.Settings} (hs : Valid s₀) (hchain : IsChain (held s₀)) :
    Sound s₀ ([] : List (Move shop ι (Site σ))) { broker := { settings }, store := s₀ } where
  chained := ⟨.start hs, hchain, fun _ hm => absurd hm List.not_mem_nil⟩
  tagged := ⟨.nil, fun _ hp => absurd hp List.not_mem_nil⟩
  knows := fun _ hm => absurd hm List.not_mem_nil
  kept := fun _ hevent => absurd hevent List.not_mem_nil

/-- What others do does no harm. -/
theorem Sound.stirs (inv : Sound s₀ h s) (hstirs : Stirs s t) : Sound s₀ h t := by
  cases hstirs with
  | publish event =>
    have htag : (s.broker.publish event).lastTag = s.broker.lastTag := Broker.lastTag_publish
    have hflight : (s.broker.publish event).inFlight.Sublist s.broker.inFlight := by
      rw [Broker.inFlight_publish]
    refine ⟨inv.chained, inv.tagged.of_sublist htag hflight, ?_, ?_⟩
    · intro m hm d hd
      exact (inv.knows m hm d hd).later (.of_sublist htag hflight)
    · intro x hx
      rcases List.mem_cons.mp hx with rfl | hx
      · exact .inl Broker.carries_publish
      · refine (inv.kept x hx).imp (fun hcarries => hcarries.publish) (.imp_right ?_)
        rintro ⟨y, hy, heq⟩
        exact ⟨y, by rwa [← Broker.dead_publish] at hy, heq⟩
  | @redeliver flight hflight =>
    have hnone : (s.redeliver flight).broker.inFlight.Sublist s.broker.inFlight :=
      List.nil_sublist _
    refine ⟨inv.chained, inv.tagged.of_sublist rfl hnone, ?_, ?_⟩
    · intro m hm d hd
      exact (inv.knows m hm d hd).later (.of_sublist rfl hnone)
    · intro x hx
      exact (inv.kept x hx).imp_left fun hcarries => hcarries.redeliverIn hflight

theorem Sound.stirred (inv : Sound s₀ h s) (hstirred : Stirred s t) : Sound s₀ h t := by
  induction hstirred with
  | refl => exact inv
  | tail _ hstirs ih => exact ih.stirs hstirs

/-- After a move that hands out nothing, the broker knows what it has handed out. -/
theorem Sound.knows_of_later (inv : Sound s₀ h t) {b : Broker} (hlater : t.broker.Later b)
    {n : Move shop ι (Site σ)} (hn : ∀ d, n.exchange ≠ ⟨.receive, some d⟩) :
    ∀ m ∈ n :: h, ∀ d, m.exchange = ⟨.receive, some d⟩ → b.Knows d := by
  intro m hm d hd
  rcases List.mem_cons.mp hm with rfl | hm
  · exact absurd hd (hn d)
  · exact (inv.knows m hm d hd).later hlater

variable [DecidableEq ι]

/-- What a consumer acknowledges is committed. -/
theorem Sound.committed_of_ack (inv : Sound s₀ h s) {i : ι} {tag : Nat}
    (hask : MayWork (transcript i h) (.settle tag .ack)) {m : Broker.Message}
    (hm : s.broker.inFlight.lookup tag = some m) : Committed (held s.store) m.event := by
  obtain ⟨d, result, report, hcurrent, rfl, hends, hack⟩ := hask
  obtain ⟨outcome, rfl⟩ := ok_of_ack hack
  -- what is in flight under the tag is what the consumer has received under it
  obtain ⟨n, hn, -, hx⟩ := mem_transcript.mp (mem_of_current hcurrent)
  have hevent : m.event = d.event :=
    (inv.knows n hn d hx).event _ (Broker.mem_of_lookup hm) rfl
  -- and the store has told of its key since
  have hsub : recent (transcript i h) ⊆ transcript i (storeMoves h) := by
    obtain ⟨older, holder⟩ := exists_onStore (transcript i h)
    rw [transcript_storeMoves, holder]
    exact List.subset_append_left _ _
  obtain ⟨hheld, hkey⟩ := inv.chained.account.held_of_ends hsub hends
  rw [hevent]
  exact ⟨outcome.entry, hheld, hkey⟩

/-- One request answered keeps everything true. -/
theorem Sound.serves (inv : Sound s₀ h t) {i : ι} {x : Exchange shop} {s' : Site σ}
    (hstore : t.store = s.store) (hask : MayWork (transcript i h) x.request)
    (hserves : Serves t x s') : Sound s₀ (⟨i, s, x, s'⟩ :: h) s' := by
  cases hserves with
  | @store r reply u hans =>
    have hmay := mayAppendAny_of_mayWork hask
    rw [← transcript_storeMoves] at hmay
    have hheld := hans.held_subset inv.chained.account.valid
    refine ⟨?_, inv.tagged, inv.knows_of_later (.refl _) (by simp), ?_⟩
    · have hmove := inv.chained.move hmay hans
      rw [hstore] at hmove
      exact hmove
    · intro event hevent
      exact (inv.kept event hevent).imp_right (.imp_left fun hcommitted => hcommitted.mono hheld)
  | delivery hreceive =>
    refine ⟨inv.chained, inv.tagged.receive hreceive, ?_, ?_⟩
    · intro m hm d hd
      rcases List.mem_cons.mp hm with rfl | hm
      · cases hd
        exact Broker.knows_of_receive hreceive inv.tagged
      · exact (inv.knows m hm d hd).later (Broker.later_of_receive hreceive)
    · intro event hevent
      refine (inv.kept event hevent).imp (fun hcarries => hcarries.receive hreceive)
        (.imp_right ?_)
      rintro ⟨y, hy, heq⟩
      exact ⟨y, by rwa [← Broker.dead_receive hreceive] at hy, heq⟩
  | drained hpending =>
    exact ⟨inv.chained, inv.tagged, inv.knows_of_later (.refl _) (by simp), inv.kept⟩
  | settle tag settlement =>
    obtain ⟨htag, hflight⟩ := settlement.inFlight_apply t.broker tag
    refine ⟨inv.chained, inv.tagged.of_sublist htag hflight,
      inv.knows_of_later (.of_sublist htag hflight) (by simp), ?_⟩
    intro event hevent
    by_cases hcommitted : Committed (held t.store) event
    · exact .inr (.inl hcommitted)
    · have hbroker : t.broker.Carries event ∨ t.broker.Buried event :=
        (inv.kept event hevent).imp_right fun hrest => hrest.resolve_left hcommitted
      rcases settlement.keeps tag inv.tagged hbroker with hx | hx | ⟨rfl, m, hm, rfl⟩
      · exact .inl hx
      · exact .inr (.inr hx)
      · exact .inr (.inl (inv.committed_of_ack hask hm))

/-! ### A whole run -/

variable {settings : Broker.Settings} {policy : ι → RetryPolicy} {rounds : ι → Nat} {store : σ}
  {Q : Pool shop ι (Site σ) Report}

/-- A run keeps everything true. -/
theorem Run.sound (hs : Valid store) (hchain : IsChain (held store))
    (hrun : Run Answers (consumers settings store policy rounds) h Q) :
    Sound store h Q.state := by
  have hobeys : ∀ i, ((consumers settings store policy rounds).program i).Obeys MayWork
      (fun _ _ => True) [] := fun i => work_obeys (policy i) (rounds i) {} []
  refine hrun.invariant hobeys (.start hs hchain) ?_
  rintro h m inv hask ⟨t, hstirred, hserves⟩
  exact (inv.stirred hstirred).serves hstirred.store_eq hask hserves

/-- **No event is lost, and none is written twice.**  Consumers of one broker, which doubles
publications, loses acknowledgements and gives up as it likes, write to one store that holds a
chain; each of their calls to the store may fail, and an insert may be committed and reported as
failed.  Others publish, and queue again what is in flight, whenever they like; and the caller may
cancel at any time.

Then at any time the store holds a chain, so no key comes twice; and every event that was published
is queued or in flight, or its key is committed, or it was put away.  When a consumer is told that
nothing is left, every key that was published is that of exactly one entry, or the event was put
away. -/
theorem nothing_lost (hs : Valid store) (hchain : IsChain (held store))
    (hrun : Run Answers (consumers settings store policy rounds) h Q)
    (hstirred : Stirred Q.state t) :
    IsChain (held t.store) ∧
    (∀ event ∈ t.published, t.broker.Carries event ∨ Committed (held t.store) event ∨
      t.broker.Buried event) ∧
    ∀ t', Serves t ⟨.receive, none⟩ t' → ∀ event ∈ t'.published,
      (∃! e, e ∈ held t'.store ∧ e.event.dedupKey = event.dedupKey) ∨ t'.broker.Buried event := by
  have inv := (Run.sound hs hchain hrun).stirred hstirred
  refine ⟨inv.chained.chain, inv.kept, ?_⟩
  intro t' hserves event hevent
  cases hserves with
  | drained hpending =>
    rcases inv.kept event hevent with hcarries | ⟨e, he, hkey⟩ | hburied
    · exact absurd hcarries (Broker.not_carries_of_pending hpending event)
    · refine .inl ⟨e, ⟨he, hkey⟩, ?_⟩
      rintro d ⟨hd, hdkey⟩
      exact inv.chained.account.eq_of_key_eq hd he (hdkey.trans hkey.symm)
    · exact .inr hburied

/-- Two consumers of a broker that doubles every publication and loses every second acknowledgement,
on a store that holds one entry. -/
def careless : Pool shop Bool (Site MemoryStore) Report :=
  consumers { duplicateEvery := some 1, loseAckEvery := some 2 }
    (.ofEntries (chainOf [.bare "first" "1"])) (fun _ => {}) fun _ => 3

/-- Both receive a copy of one event and look its key up in vain.  What they have received is queued
again; one of them commits, and what they acknowledge is in flight no more. -/
def carelessTurns : List (Turn Bool) :=
  let next (i : Bool) (n : Nat) : List (Turn Bool) := List.replicate n (.answer i (.serve false))
  [.publish (.bare "second" "2")] ++ next true 6 ++ next false 6 ++ [.redeliver] ++
    next true 3 ++ next false 20 ++ next true 8

theorem nothing_lost_careless :
    let store := MemoryStore.ofEntries (chainOf [.bare "first" "1"])
    let t := (play careless careless.state carelessTurns).2.2
    Valid store ∧ IsChain (held store) ∧ t.published = [.bare "second" "2"] ∧
      t.broker.stats.delivered = 5 ∧ t.broker.stats.acked = 3 ∧
      (held t.store).map (fun e => e.event.dedupKey.text) = ["first", "second"] ∧
      IsChain (held t.store) ∧ Serves t ⟨.receive, none⟩ t ∧ ∀ event ∈ t.published,
        (∃! e, e ∈ held t.store ∧ e.event.dedupKey = event.dedupKey) ∨ t.broker.Buried event := by
  intro store t
  have hfirst : IsChain (chainOf [.bare "first" "1"]) := isChain_chainOf (by decide) (by decide)
  have hs : Valid store := MemoryStore.indexed_ofEntries hfirst.ascending hfirst.keys
  have hchain : IsChain (held store) := by
    show IsChain store.entries
    rw [MemoryStore.entries_ofEntries hfirst.ascending]
    exact hfirst
  have hplayed : t.broker.pending = 0 ∧ t.published = [.bare "second" "2"] ∧
      t.broker.stats.delivered = 5 ∧ t.broker.stats.acked = 3 ∧
      (held t.store).map (fun e => e.event.dedupKey.text) = ["first", "second"] := by
    decide +kernel
  obtain ⟨hpending, hpublished, hdelivered, hacked, hheld⟩ := hplayed
  have hdrained : Serves t ⟨.receive, none⟩ t := .drained hpending
  obtain ⟨hrun, hstirred⟩ := run_play (P := careless) .refl carelessTurns
  obtain ⟨hstored, -, hnone⟩ := nothing_lost hs hchain hrun hstirred
  exact ⟨hs, hchain, hpublished, hdelivered, hacked, hheld, hstored, hdrained, hnone t hdrained⟩

end AuditChain.Consumer
