import AuditChain.Proofs.Store.Unaltered

/-!
# A writer with nobody around

A writer who has a store in memory to itself, and is not cancelled, needs one pass for each event: an
event whose key is committed is a duplicate, and any other is sealed behind the chain.  So events
that are submitted one after another leave the chain with one entry more for the first event of each
new key, and to submit an event once more changes nothing.

## Main definitions

* `newcomers` — of events, the first of each key that is not taken.
* `appendNew` — a chain with one event sealed behind it, unless its key is committed.
* `Submitted` — a store after one submission.

## Main results

* `foldl_appendNew` — what events that come one after another leave of a chain.
* `foldl_appendNew_again` — an event that comes once more changes nothing.
* `submit_alone` — **a submission does what it should, in one pass.**
-/

namespace AuditChain

open Store (run_ask)

/-! ### What becomes of the chain -/

/-- The keys of entries. -/
def keysOf (es : List Entry) : List DedupKey :=
  es.map fun e => e.event.dedupKey

/-- Of events, those that are the first of their key, if the key is not taken before. -/
def newcomers (taken : List DedupKey) : List Event → List Event
  | [] => []
  | event :: events =>
    if event.dedupKey ∈ taken then newcomers taken events
    else event :: newcomers (taken ++ [event.dedupKey]) events

/-- The chain with an event sealed behind it, unless its key is committed. -/
def appendNew (es : List Entry) (event : Event) : List Entry :=
  if event.dedupKey ∈ keysOf es then es else es ++ [sealAfter es event]

section Fold

variable {es : List Entry} {event : Event}

theorem appendNew_of_mem (h : event.dedupKey ∈ keysOf es) : appendNew es event = es :=
  if_pos h

theorem appendNew_of_not_mem (h : event.dedupKey ∉ keysOf es) :
    appendNew es event = es ++ [sealAfter es event] :=
  if_neg h

theorem mem_keysOf_appendNew (es : List Entry) (event : Event) :
    event.dedupKey ∈ keysOf (appendNew es event) := by
  by_cases h : event.dedupKey ∈ keysOf es
  · rwa [appendNew_of_mem h]
  · rw [appendNew_of_not_mem h, keysOf, List.map_append]
    exact List.mem_append_right _ (List.mem_singleton_self _)

/-- **Events that come one after another** leave the chain with an entry more for each newcomer. -/
theorem foldl_appendNew (es : List Entry) (events : List Event) :
    ∃ new, events.foldl appendNew es = es ++ new ∧
      new.map Entry.event = newcomers (keysOf es) events := by
  induction events generalizing es with
  | nil => exact ⟨[], (List.append_nil es).symm, rfl⟩
  | cons event events ih =>
    obtain ⟨new, hnew, hevents⟩ := ih (appendNew es event)
    rw [List.foldl_cons, hnew, newcomers]
    by_cases h : event.dedupKey ∈ keysOf es
    · rw [appendNew_of_mem h] at hevents ⊢
      exact ⟨new, rfl, by rw [if_pos h, hevents]⟩
    · have hkeys : keysOf (es ++ [sealAfter es event]) = keysOf es ++ [event.dedupKey] :=
        List.map_append
      rw [appendNew_of_not_mem h] at hevents ⊢
      refine ⟨sealAfter es event :: new, by simp, ?_⟩
      rw [if_neg h, List.map_cons, hevents, hkeys]
      rfl

/-- Keys that are committed stay committed. -/
theorem keysOf_subset_foldl (es : List Entry) (events : List Event) :
    keysOf es ⊆ keysOf (events.foldl appendNew es) := by
  obtain ⟨new, hnew, -⟩ := foldl_appendNew es events
  rw [hnew, keysOf, keysOf, List.map_append]
  exact List.subset_append_left _ _

theorem length_le_foldl (es : List Entry) (events : List Event) :
    es.length ≤ (events.foldl appendNew es).length := by
  obtain ⟨new, hnew, -⟩ := foldl_appendNew es events
  rw [hnew, List.length_append]
  exact Nat.le_add_right _ _

/-- An event that comes once more after others changes nothing. -/
theorem foldl_appendNew_again (h : event.dedupKey ∈ keysOf es) (events : List Event) :
    (events ++ [event]).foldl appendNew es = events.foldl appendNew es := by
  rw [List.foldl_append]
  exact appendNew_of_mem (keysOf_subset_foldl es events h)

end Fold

/-! ### The submission -/

section Run

variable {σ : Type} [Store σ] {s s' : σ} {event : Event}

/-- An event whose key is not stored is sealed for the place after the tail. -/
theorem submit_run_of_new {tail : Option ChainTail} {sequence : UInt64} {previousHash : String}
    (hfind : Store.find s event.dedupKey = .ok none) (htail : Store.tail s = .ok tail)
    (hlink : ChainTail.nextLink? tail = some (sequence, previousHash))
    (hins : Store.insert s (.sealed sequence event previousHash) = .ok s') (p : RetryPolicy) :
    (submit p event).run (Store.respond false) s =
      (.ok (.ok (.appended (.sealed sequence event previousHash))), s') := by
  have hpass : (attempt event).run (Store.respond false) s =
      (.ok (.ok (some (.appended (.sealed sequence event previousHash)))), s') := by
    rw [attempt, run_ask]
    simp only [Store.reply, hfind]
    rw [run_ask]
    simp only [Store.reply, htail, hlink]
    rw [run_ask]
    simp only [Store.reply, Bool.false_eq_true, if_false]
    rw [run_ask]
    simp only [Store.reply, hins]
    rfl
  rw [submit, submitFrom, run_ask]
  exact Program.run_bind hpass _

end Run

section Memory

variable {m : MemoryStore} {event : Event}

/-- Behind a chain that leaves a sequence there is a place. -/
theorem IsChain.nextLink?_eq {es : List Entry} (hchain : IsChain es)
    (hroom : es.length < 18446744073709551616) :
    ∃ sequence previousHash,
      ChainTail.nextLink? (es.getLast?.map Entry.tail) = some (sequence, previousHash) ∧
      ∀ event, Entry.sealed sequence event previousHash = sealAfter es event := by
  cases hlink : ChainTail.nextLink? (es.getLast?.map Entry.tail) with
  | none =>
    -- only the greatest sequence has none after it
    obtain ⟨t, ht, hmax⟩ := ChainTail.nextLink?_eq_none_iff.mp hlink
    obtain ⟨e, he, rfl⟩ := Option.map_eq_some_iff.mp ht
    obtain ⟨init, rfl⟩ := List.getLast?_eq_some_iff.mp he
    have hlast : e.sequence = maxSequence := hmax
    have hsequence := hchain.continues_of_concat.sequence
    rw [hlast, Nat.zero_add] at hsequence
    rw [List.length_append, List.length_singleton, ← hsequence] at hroom
    exact absurd hroom (by decide)
  | some link =>
    obtain ⟨sequence, previousHash⟩ := link
    obtain ⟨hsequence, hlast⟩ := hchain.of_nextLink hlink
    refine ⟨sequence, previousHash, rfl, ?_⟩
    intro event
    have hplace : sequence = UInt64.ofNat es.length := by
      rw [← UInt64.toNat_inj, hsequence]
      exact (UInt64.toNat_ofNat_of_lt' hroom).symm
    rw [sealAfter, hlast, hplace]
    rfl

/-- What is sealed behind a chain under a new key is free there. -/
theorem IsChain.isFree_sealed {es : List Entry} (hchain : IsChain es) {sequence : UInt64}
    {previousHash : String}
    (hlink : ChainTail.nextLink? (es.getLast?.map Entry.tail) = some (sequence, previousHash))
    (hkey : event.dedupKey ∉ keysOf es) :
    IsFree (Entry.sealed sequence event previousHash) es := by
  intro d hd
  have hbelow := (above_of_nextLink hchain.toIsSlice.ascending hlink).1 d hd
  exact ⟨UInt64.ne_of_lt (UInt64.lt_iff_toNat_lt.mpr hbelow),
    fun hdkey => hkey (List.mem_map.mpr ⟨d, hd, hdkey⟩)⟩

/-- A store in memory holds the chain that a submission with this outcome has left. -/
structure Submitted (m : MemoryStore) (event : Event) (outcome : Outcome) (m' : MemoryStore) :
    Prop where
  indexed : m'.Indexed
  chain : IsChain m'.entries
  entries : m'.entries = appendNew m.entries event
  /-- A duplicate adds nothing, and anything else one entry. -/
  length_entries : m'.entries.length = m.entries.length + if outcome.isDuplicate then 0 else 1

/-- **A submission does what it should, in one pass**, if there is a sequence left for the event. -/
theorem submit_alone (hm : m.Indexed) (hchain : IsChain m.entries)
    (hroom : (appendNew m.entries event).length ≤ 18446744073709551616) (p : RetryPolicy) :
    ∃ outcome m', (submit p event).run (Store.respond false) m = (.ok (.ok outcome), m') ∧
      Submitted m event outcome m' := by
  by_cases hkey : event.dedupKey ∈ keysOf m.entries
  · obtain ⟨e, he, hekey⟩ := List.mem_map.mp hkey
    have hfind : Store.find m event.dedupKey = .ok (some e) :=
      congrArg Except.ok (hm.find?_eq_some_iff.mpr ⟨he, hekey⟩)
    exact ⟨_, m, submit_run_of_known hfind p, hm, hchain, (appendNew_of_mem hkey).symm, rfl⟩
  · rw [appendNew_of_not_mem hkey, List.length_append, List.length_singleton] at hroom
    obtain ⟨sequence, previousHash, hlink, hsealed⟩ := hchain.nextLink?_eq hroom
    have hfind : Store.find m event.dedupKey = .ok none := by
      refine congrArg Except.ok (Option.eq_none_iff_forall_ne_some.mpr ?_)
      intro e hfound
      obtain ⟨he, hekey⟩ := hm.find?_eq_some_iff.mp hfound
      exact hkey (List.mem_map.mpr ⟨e, he, hekey⟩)
    have hfree := hchain.isFree_sealed hlink hkey
    obtain ⟨hplace, hnew⟩ := hchain.place_sealed hchain (List.Subset.refl _) hlink hfree
    have hins : Store.insert m (Entry.sealed sequence event previousHash) = .ok (m.put _) :=
      hm.insert_eq_ok_iff.mpr ⟨hfree, rfl⟩
    have hentries : (m.put (Entry.sealed sequence event previousHash)).entries =
        m.entries ++ [Entry.sealed sequence event previousHash] := hplace
    refine ⟨_, _, submit_run_of_new hfind rfl hlink hins p, hm.put hfree, ?_, ?_, ?_⟩
    · rwa [hentries]
    · rw [hentries, appendNew_of_not_mem hkey, hsealed]
    · rw [hentries, List.length_append]
      rfl

end Memory

end AuditChain
