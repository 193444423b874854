import AuditChain.Entry
import AuditChain.Store.Ordered
import Mathlib.Data.List.Basic
import Mathlib.Data.List.Induction

/-!
# Chains

What makes a list of entries a piece of a chain: the sequences follow one another, every entry names
the hash of the one before it, and every hash is the one that the fields call for.  A piece that
starts at zero names the genesis hash first; a *chain* is such a piece in which no key comes twice.

A chain knows the place of each of its entries, so of two chains that one holds all entries of the
other, the other is the beginning.

## Main definitions

* `IsSlice`, `IsChain` — a piece of a chain, and a whole chain.
* `IsFree` — an entry whose sequence and key are not taken.
* `linkAfter`, `Continues` — the hash to be named next, and an entry that can come next.
* `chainOf` — the chain of events that are sealed one after another.

## Main results

* `isSlice_concat_iff` — a piece grows by exactly the entries that can come next.
* `IsSlice.prefix_of_subset` — of two chains, the one that holds fewer entries is the beginning.
* `IsChain.place_sealed` — **a free entry sealed after a stale tail still continues the chain.**
-/

namespace AuditChain

/-- A piece of a chain whose first sequence is `first`. -/
structure IsSlice (first : Nat) (es : List Entry) : Prop where
  /-- The sequences follow one another from `first` on. -/
  sequence : ∀ k (hk : k < es.length), es[k].sequence.toNat = first + k
  /-- The first entry of all names the genesis hash. -/
  genesis : first = 0 → ∀ e ∈ es.head?, e.previousHash = genesisHash
  /-- Every later entry names the hash of the one before it. -/
  linked : ∀ k (hk : k + 1 < es.length), es[k + 1].previousHash = es[k].hash
  /-- Every hash is the one that the fields call for. -/
  hash : ∀ e ∈ es, e.hash = e.recompute

/-- A chain: it starts at zero, and no two entries share a key. -/
structure IsChain (es : List Entry) : Prop extends IsSlice 0 es where
  /-- No two entries share a key. -/
  keys : es.Pairwise fun a b => a.event.dedupKey ≠ b.event.dedupKey

/-- A moment like any other. -/
def Timestamp.noon : Timestamp :=
  ⟨⟨2000, 1, 1, by decide⟩, ⟨12 * 3600, 0, by decide⟩⟩

/-- An event that tells no more than every event must. -/
def Event.bare (key entityId : String) (occurredAt : Timestamp := .noon) : Event where
  dedupKey := ⟨key⟩
  entityName := "order"
  action := .created
  entityId := entityId
  occurredAt := occurredAt

/-- Neither the sequence nor the key of an entry is taken. -/
def IsFree (e : Entry) (es : List Entry) : Prop :=
  ∀ d ∈ es, d.sequence ≠ e.sequence ∧ d.event.dedupKey ≠ e.event.dedupKey

/-- There is nothing after the greatest sequence. -/
theorem ChainTail.nextLink?_eq_none_iff {tail : Option ChainTail} :
    nextLink? tail = none ↔ ∃ t, tail = some t ∧ t.sequence = maxSequence := by
  cases tail with
  | none => simp
  | some t => simp [nextLink?]

/-- After any other entry come the next sequence and its hash. -/
theorem ChainTail.of_nextLink_tail {e : Entry} {sequence : UInt64} {previousHash : String}
    (hlink : nextLink? (some e.tail) = some (sequence, previousHash)) :
    sequence.toNat = e.sequence.toNat + 1 ∧ previousHash = e.hash := by
  rw [nextLink?] at hlink
  split at hlink
  · cases hlink
  · rename_i hmax
    obtain ⟨rfl, rfl⟩ : e.sequence + 1 = sequence ∧ e.hash = previousHash := by
      simpa [Entry.tail] using hlink
    refine ⟨?_, rfl⟩
    -- the sequence is not the greatest one, so adding one does not wrap around
    have hne : e.sequence.toNat ≠ 18446744073709551615 := fun heq =>
      hmax (UInt64.toNat_inj.mp heq)
    have hlt := e.sequence.toNat_lt
    rw [UInt64.toNat_add, UInt64.toNat_one, Nat.mod_eq_of_lt (by omega)]

/-- The hash that the entry after a piece has to name; a piece that starts inside a chain takes its
first link on trust. -/
def linkAfter (first : Nat) (es : List Entry) : Option String :=
  match es.getLast? with
  | some e => some e.hash
  | none => if first = 0 then some genesisHash else none

@[simp] theorem linkAfter_nil (first : Nat) :
    linkAfter first [] = if first = 0 then some genesisHash else none := rfl

@[simp] theorem linkAfter_concat (first : Nat) (es : List Entry) (e : Entry) :
    linkAfter first (es ++ [e]) = some e.hash := by
  simp [linkAfter]

/-- An entry that can come right after a piece of a chain. -/
structure Continues (first : Nat) (es : List Entry) (e : Entry) : Prop where
  /-- Its sequence is the next one. -/
  sequence : e.sequence.toNat = first + es.length
  /-- It names the hash of the last entry. -/
  link : ∀ p ∈ linkAfter first es, e.previousHash = p
  /-- Its hash is the one that its fields call for. -/
  hash : e.hash = e.recompute

theorem isSlice_nil (first : Nat) : IsSlice first [] where
  sequence := fun k hk => absurd hk (Nat.not_lt_zero k)
  genesis := fun _ e he => absurd he (by simp)
  linked := fun k hk => absurd hk (Nat.not_lt_zero _)
  hash := fun e he => absurd he List.not_mem_nil

theorem isChain_nil : IsChain [] where
  toIsSlice := isSlice_nil 0
  keys := .nil

namespace IsSlice

variable {first : Nat} {es : List Entry}

/-- What a piece of a chain begins with is a piece of it. -/
theorem of_append {xs ys : List Entry} (h : IsSlice first (xs ++ ys)) : IsSlice first xs where
  sequence := fun k hk => by
    have hk' : k < (xs ++ ys).length := by rw [List.length_append]; omega
    rw [← h.sequence k hk', List.getElem_append_left hk]
  genesis := fun hfirst e he => by
    refine h.genesis hfirst e ?_
    cases xs with
    | nil => exact absurd he (by simp)
    | cons x xs => exact he
  linked := fun k hk => by
    have hk' : k + 1 < (xs ++ ys).length := by rw [List.length_append]; omega
    have hlink := h.linked k hk'
    rwa [List.getElem_append_left hk, List.getElem_append_left (by omega)] at hlink
  hash := fun e he => h.hash e (List.mem_append_left ys he)

/-- What is left of a piece of a chain without its beginning is a piece of it. -/
theorem drop (h : IsSlice first es) (n : Nat) : IsSlice (first + n) (es.drop n) where
  sequence := fun k hk => by
    rw [List.length_drop] at hk
    rw [List.getElem_drop, h.sequence (n + k) (by omega), Nat.add_assoc]
  genesis := fun hfirst => by
    obtain ⟨rfl, rfl⟩ := Nat.add_eq_zero_iff.mp hfirst
    exact h.genesis rfl
  linked := fun k hk => by
    rw [List.length_drop] at hk
    rw [List.getElem_drop, List.getElem_drop]
    exact h.linked (n + k) (by omega)
  hash := fun e he => h.hash e (List.mem_of_mem_drop he)

/-- The last entry of a piece can come after the ones before it. -/
theorem continues_of_concat {e : Entry} (h : IsSlice first (es ++ [e])) : Continues first es e where
  sequence := by
    have hseq := h.sequence es.length (by simp)
    rwa [List.getElem_concat_length rfl] at hseq
  link := by
    intro p hp
    rcases List.eq_nil_or_concat es with rfl | ⟨init, d, rfl⟩
    · rw [linkAfter_nil] at hp
      by_cases hfirst : first = 0
      · rw [if_pos hfirst] at hp
        rw [h.genesis hfirst e (by simp)]
        exact Option.some.inj hp
      · rw [if_neg hfirst] at hp
        exact absurd hp (by simp)
    · rw [List.concat_eq_append, linkAfter_concat] at hp
      have hlink := h.linked init.length (by simp)
      simp only [List.concat_eq_append, List.append_assoc] at hlink
      rw [← Option.some.inj hp]
      simpa using hlink
  hash := h.hash e (by simp)

/-- A piece grows by an entry that can come next. -/
theorem concat {e : Entry} (h : IsSlice first es) (he : Continues first es e) :
    IsSlice first (es ++ [e]) where
  sequence := fun k hk => by
    rw [List.length_append, List.length_singleton] at hk
    rcases Nat.lt_or_ge k es.length with hlt | hge
    · rw [List.getElem_append_left hlt]
      exact h.sequence k hlt
    · obtain rfl : k = es.length := by omega
      rw [List.getElem_concat_length rfl]
      exact he.sequence
  genesis := fun hfirst d hd => by
    cases es with
    | nil =>
      obtain rfl : e = d := by simpa using hd
      exact he.link genesisHash (by simp [hfirst])
    | cons x xs => exact h.genesis hfirst d hd
  linked := fun k hk => by
    rw [List.length_append, List.length_singleton] at hk
    rcases Nat.lt_or_ge (k + 1) es.length with hlt | hge
    · rw [List.getElem_append_left hlt, List.getElem_append_left (by omega)]
      exact h.linked k hlt
    · have hlen : es.length = k + 1 := by omega
      have hlast : es.getLast? = some es[k] := by
        rw [List.getLast?_eq_getElem?, show es.length - 1 = k by omega]
        exact List.getElem?_eq_getElem (by omega)
      rw [List.getElem_concat_length hlen.symm, List.getElem_append_left (by omega)]
      exact he.link es[k].hash (by simp [linkAfter, hlast])
  hash := fun d hd => by
    rcases List.mem_append.mp hd with hd | hd
    · exact h.hash d hd
    · rw [List.mem_singleton.mp hd]
      exact he.hash

end IsSlice

/-- **A piece of a chain grows by exactly the entries that can come next.** -/
theorem isSlice_concat_iff {first : Nat} {es : List Entry} {e : Entry} :
    IsSlice first (es ++ [e]) ↔ IsSlice first es ∧ Continues first es e := by
  constructor
  · intro h
    exact ⟨h.of_append, h.continues_of_concat⟩
  · rintro ⟨hes, he⟩
    exact hes.concat he

namespace IsSlice

/-- An entry stands at the place that its sequence tells. -/
theorem getElem_of_mem {es : List Entry} (h : IsSlice 0 es) {e : Entry} (he : e ∈ es) :
    ∃ hk : e.sequence.toNat < es.length, es[e.sequence.toNat] = e := by
  obtain ⟨k, hk, rfl⟩ := List.getElem_of_mem he
  have hseq := h.sequence k hk
  rw [Nat.zero_add] at hseq
  simp only [hseq]
  exact ⟨hk, trivial⟩

/-- The sequences of a piece that starts at zero are the places in it. -/
theorem map_sequence {es : List Entry} (h : IsSlice 0 es) :
    es.map (fun e => e.sequence.toNat) = List.range es.length := by
  refine List.ext_getElem (by simp) fun k hk _ => ?_
  rw [List.getElem_map, List.getElem_range, h.sequence, Nat.zero_add]

/-- The sequences of a piece ascend. -/
theorem ascending {first : Nat} {es : List Entry} (h : IsSlice first es) :
    Ascending Entry.sequence es := by
  refine List.pairwise_iff_getElem.mpr ?_
  intro i j hi hj hij
  rw [UInt64.lt_iff_toNat_lt, h.sequence i hi, h.sequence j hj]
  omega

/-- The tail of a piece names the place and the hash that come next. -/
theorem of_nextLink {es : List Entry} (h : IsSlice 0 es) {sequence : UInt64} {previousHash : String}
    (hlink : ChainTail.nextLink? (es.getLast?.map Entry.tail) = some (sequence, previousHash)) :
    sequence.toNat = es.length ∧ linkAfter 0 es = some previousHash := by
  rcases List.eq_nil_or_concat es with rfl | ⟨init, d, rfl⟩
  · obtain ⟨rfl, rfl⟩ : 0 = sequence ∧ genesisHash = previousHash := by simpa using hlink
    exact ⟨rfl, rfl⟩
  · rw [List.concat_eq_append] at h hlink ⊢
    have hd : d.sequence.toNat = init.length := by
      have hseq := h.continues_of_concat.sequence
      rwa [Nat.zero_add] at hseq
    rw [List.getLast?_concat] at hlink
    obtain ⟨hsucc, rfl⟩ := ChainTail.of_nextLink_tail hlink
    refine ⟨?_, linkAfter_concat 0 init d⟩
    rw [hsucc, hd, List.length_append, List.length_singleton]

/-- Of two chains, the one whose entries are all in the other is the beginning of the other. -/
theorem prefix_of_subset {old es : List Entry} (hold : IsSlice 0 old) (hes : IsSlice 0 es)
    (hsub : old ⊆ es) : old <+: es := by
  -- a sequence tells the place, so a common entry is at the same place in both
  have hat : ∀ k (hk : k < old.length), es[k]? = some old[k] := by
    intro k hk
    obtain ⟨hk', heq⟩ := hes.getElem_of_mem (hsub (List.getElem_mem hk))
    have hseq := hold.sequence k hk
    rw [Nat.zero_add] at hseq
    simp only [hseq] at hk' heq
    rw [List.getElem?_eq_getElem hk', heq]
  rw [List.prefix_iff_getElem?]
  exact hat

end IsSlice

/-- **A stale tail does no harm.**  An entry sealed for the place after the tail of an older state
of a chain, and found free in the newer one, continues the newer one: for if the chain had grown
since, the sequence would be taken. -/
theorem IsChain.place_sealed {old es : List Entry} (hold : IsChain old) (hes : IsChain es)
    (hsub : old ⊆ es) {sequence : UInt64} {previousHash : String} {event : Event}
    (hlink : ChainTail.nextLink? (old.getLast?.map Entry.tail) = some (sequence, previousHash))
    (hfree : IsFree (Entry.sealed sequence event previousHash) es) :
    place Entry.sequence (Entry.sealed sequence event previousHash) es =
      es ++ [Entry.sealed sequence event previousHash] ∧
    IsChain (es ++ [Entry.sealed sequence event previousHash]) := by
  obtain ⟨hseq, hlast⟩ := hold.toIsSlice.of_nextLink hlink
  -- the first entry that came later would sit where the new one wants to be
  obtain rfl : old = es := by
    obtain ⟨rest, rfl⟩ := hold.toIsSlice.prefix_of_subset hes.toIsSlice hsub
    cases rest with
    | nil => exact (List.append_nil old).symm
    | cons d rest =>
      have hd := hes.sequence old.length (by simp)
      rw [List.getElem_append_right (Nat.le_refl _)] at hd
      have htaken : d.sequence = sequence := by
        rw [← UInt64.toNat_inj, hseq]
        simpa using hd
      exact absurd htaken (hfree d (by simp)).1
  have hlt : ∀ d ∈ old, d.sequence < sequence := by
    intro d hd
    obtain ⟨hk, -⟩ := hold.toIsSlice.getElem_of_mem hd
    rw [UInt64.lt_iff_toNat_lt, hseq]
    exact hk
  refine ⟨place_eq_append hlt, ?_, ?_⟩
  · refine hold.toIsSlice.concat ⟨?_, ?_, rfl⟩
    · rw [Nat.zero_add]
      exact hseq
    · intro p hp
      rw [hlast] at hp
      exact Option.some.inj hp
  · rw [List.pairwise_append]
    refine ⟨hold.keys, List.pairwise_singleton _ _, ?_⟩
    intro d hd e he
    rw [List.mem_singleton.mp he]
    exact (hfree d hd).2

/-- What comes next lies above all that there is, and no further above than by one. -/
theorem above_of_nextLink {es : List Entry} (hasc : Ascending Entry.sequence es)
    {sequence : UInt64} {previousHash : String}
    (hlink : ChainTail.nextLink? (es.getLast?.map Entry.tail) = some (sequence, previousHash)) :
    (∀ d ∈ es, d.sequence.toNat < sequence.toNat) ∧
      (sequence.toNat = 0 ∨ ∃ d ∈ es, sequence.toNat = d.sequence.toNat + 1) := by
  rcases List.eq_nil_or_concat es with rfl | ⟨init, last, rfl⟩
  · obtain ⟨rfl, -⟩ : 0 = sequence ∧ genesisHash = previousHash := by simpa using hlink
    exact ⟨fun d hd => absurd hd List.not_mem_nil, .inl rfl⟩
  · rw [List.concat_eq_append] at hasc hlink ⊢
    rw [List.getLast?_concat] at hlink
    obtain ⟨hsucc, -⟩ := ChainTail.of_nextLink_tail hlink
    refine ⟨?_, .inr ⟨last, by simp, hsucc⟩⟩
    intro d hd
    rcases List.mem_append.mp hd with hd | hd
    · have hlt := (List.pairwise_append.mp hasc).2.2 d hd last (List.mem_singleton_self last)
      rw [UInt64.lt_iff_toNat_lt] at hlt
      omega
    · rw [List.mem_singleton.mp hd]
      omega

/-! ### Events sealed one after another -/

/-- The entry for an event behind a piece of the chain. -/
def sealAfter (es : List Entry) (event : Event) : Entry :=
  .sealed (UInt64.ofNat es.length) event ((linkAfter 0 es).getD genesisHash)

/-- The chain of events that are sealed one after another. -/
def chainOf (events : List Event) : List Entry :=
  events.foldl (fun es event => es ++ [sealAfter es event]) []

theorem chainOf_concat (events : List Event) (event : Event) :
    chainOf (events ++ [event]) = chainOf events ++ [sealAfter (chainOf events) event] := by
  simp [chainOf]

theorem map_event_chainOf (events : List Event) : (chainOf events).map Entry.event = events := by
  induction events using List.reverseRecOn with
  | nil => rfl
  | append_singleton events event ih =>
    rw [chainOf_concat, List.map_append, ih]
    rfl

theorem length_chainOf (events : List Event) : (chainOf events).length = events.length := by
  rw [← List.length_map Entry.event, map_event_chainOf]

/-- An event can be sealed behind every piece that leaves a sequence for it. -/
theorem continues_sealAfter {es : List Entry} (event : Event)
    (hroom : es.length < 18446744073709551616) : Continues 0 es (sealAfter es event) where
  sequence := by
    rw [Nat.zero_add]
    exact UInt64.toNat_ofNat_of_lt' hroom
  link := by
    intro p hp
    show (linkAfter 0 es).getD genesisHash = p
    rw [Option.mem_def.mp hp]
    rfl
  hash := rfl

/-- Events with keys of their own make a chain. -/
theorem isChain_chainOf {events : List Event} (hroom : events.length ≤ 18446744073709551616)
    (hkeys : (events.map Event.dedupKey).Nodup) : IsChain (chainOf events) where
  toIsSlice := by
    clear hkeys
    induction events using List.reverseRecOn with
    | nil => exact isSlice_nil 0
    | append_singleton events event ih =>
      rw [List.length_append, List.length_singleton] at hroom
      rw [chainOf_concat]
      refine (ih (by omega)).concat (continues_sealAfter event ?_)
      rw [length_chainOf]
      omega
  keys := by
    rw [← map_event_chainOf events, List.map_map, List.Nodup, List.pairwise_map] at hkeys
    exact hkeys

end AuditChain
