import AuditChain.Proofs.Chain
import AuditChain.Proofs.Store.Lawful
import AuditChain.Store.Memory
import Mathlib.Data.List.Induction

/-!
# The store in memory keeps to the contract

Inserts keep the index in step with the entries: it leads from each key that is held to the
sequence of its entry, and from no other key.  Loading a list may break this, where a key comes
twice; a list whose sequences ascend and whose keys are distinct is held as it was loaded.

## Main definitions

* `MemoryStore.Indexed` — the index is in step with the entries.

## Main results

* `MemoryStore.Indexed.put` — an entry that was free keeps the index in step.
* `MemoryStore.entries_ofEntries`, `MemoryStore.indexed_ofEntries` — what is held once a list has
  been loaded.
* The instance of `LawfulStore`.
-/

namespace AuditChain

namespace MemoryStore

/-- The index leads from the key of each entry to its sequence, and from no other key. -/
def Indexed (m : MemoryStore) : Prop :=
  ∀ key sequence, m.index.lookup key = some sequence ↔
    ∃ e ∈ m.entries, e.event.dedupKey = key ∧ e.sequence = sequence

theorem indexed_empty : Indexed empty := by
  intro key sequence
  simp [empty]

/-- In the index without one key, every other key is found as before. -/
theorem lookup_filter_of_ne {key k : DedupKey} (hne : k ≠ key) (ps : List (DedupKey × UInt64)) :
    (ps.filter fun p => p.1 != key).lookup k = ps.lookup k := by
  induction ps with
  | nil => rfl
  | cons p ps ih =>
    obtain ⟨k', q⟩ := p
    by_cases hk' : k' = key
    · have hbeq : (k == k') = false := by
        rw [hk']
        exact beq_false_of_ne hne
      rw [List.filter_cons_of_neg (by simp [hk']), ih, List.lookup_cons, hbeq]
    · rw [List.filter_cons_of_pos (by simp [hk']), List.lookup_cons, List.lookup_cons, ih]

variable {m : MemoryStore} {e : Entry} {es : List Entry}

/-- Putting an entry in makes the index lead to it, and leaves every other key where it was. -/
theorem lookup_put (m : MemoryStore) (e : Entry) (key : DedupKey) :
    (m.put e).index.lookup key =
      if key = e.event.dedupKey then some e.sequence else m.index.lookup key := by
  show List.lookup key ((e.event.dedupKey, e.sequence) :: _) = _
  split
  · rename_i hkey
    rw [hkey, List.lookup_cons_self]
  · rename_i hkey
    rw [List.lookup_cons, beq_false_of_ne hkey]
    exact lookup_filter_of_ne hkey m.index

/-- The entry at a sequence is the one that has it. -/
theorem get?_eq_some_iff {sequence : UInt64} :
    m.get? sequence = some e ↔ e ∈ m.entries ∧ e.sequence = sequence := by
  rw [get?, find?_eq_some_iff_of_unique, beq_iff_eq]
  intro d hd e he hdseq heseq
  rw [beq_iff_eq] at hdseq heseq
  exact eq_of_pairwise_ne m.ascending.pairwise_ne hd he (hdseq.trans heseq.symm)

theorem get?_eq_none_iff {sequence : UInt64} :
    m.get? sequence = none ↔ ∀ d ∈ m.entries, d.sequence ≠ sequence := by
  simp [get?]

/-- An insert succeeds exactly where its sequence is free and the index does not have its key. -/
theorem insert_eq_ok_iff {m' : MemoryStore} : m.insert e = .ok m' ↔
    (∀ d ∈ m.entries, d.sequence ≠ e.sequence) ∧ m.index.lookup e.event.dedupKey = none ∧
      m' = m.put e := by
  rw [← get?_eq_none_iff, insert]
  cases m.get? e.sequence with
  | some d => simp
  | none =>
    cases m.index.lookup e.event.dedupKey with
    | some sequence => simp
    | none => simp [eq_comm]

namespace Indexed

/-- A key that the index does not have is not held. -/
theorem ne_of_lookup_eq_none (h : m.Indexed) {key : DedupKey} (hkey : m.index.lookup key = none) :
    ∀ d ∈ m.entries, d.event.dedupKey ≠ key := by
  intro d hd heq
  have hsome := (h key d.sequence).mpr ⟨d, hd, heq, rfl⟩
  rw [hkey] at hsome
  cases hsome

/-- A key that is not held is not in the index. -/
theorem lookup_eq_none (h : m.Indexed) {key : DedupKey}
    (hkey : ∀ d ∈ m.entries, d.event.dedupKey ≠ key) : m.index.lookup key = none := by
  cases hlookup : m.index.lookup key with
  | none => rfl
  | some q =>
    obtain ⟨d, hd, heq, -⟩ := (h key q).mp hlookup
    exact absurd heq (hkey d hd)

/-- A lookup finds the entry that is held under the key. -/
theorem find?_eq_some_iff (h : m.Indexed) {key : DedupKey} :
    m.find? key = some e ↔ e ∈ m.entries ∧ e.event.dedupKey = key := by
  rw [find?, Option.bind_eq_some_iff]
  constructor
  · rintro ⟨q, hq, he⟩
    obtain ⟨d, hd, hkey, hseq⟩ := (h key q).mp hq
    rw [get?_eq_some_iff] at he
    have hde : m.get? q = some d := get?_eq_some_iff.mpr ⟨hd, hseq⟩
    rw [get?_eq_some_iff.mpr he] at hde
    obtain rfl := Option.some.inj hde
    exact ⟨hd, hkey⟩
  · rintro ⟨he, hkey⟩
    exact ⟨e.sequence, (h key e.sequence).mpr ⟨e, he, hkey, rfl⟩, get?_eq_some_iff.mpr ⟨he, rfl⟩⟩

/-- No two entries share a key. -/
theorem keys (h : m.Indexed) :
    m.entries.Pairwise fun a b => a.event.dedupKey ≠ b.event.dedupKey := by
  refine m.ascending.imp_of_mem ?_
  intro a b ha hb hlt heq
  -- one key leads to one sequence, but the sequences of two entries differ
  have hqa := (h a.event.dedupKey a.sequence).mpr ⟨a, ha, rfl, rfl⟩
  have hqb := (h a.event.dedupKey b.sequence).mpr ⟨b, hb, heq.symm, rfl⟩
  rw [hqa] at hqb
  exact UInt64.ne_of_lt hlt (Option.some.inj hqb)

/-- An entry that was free keeps the index in step. -/
theorem put (h : m.Indexed) (hfree : IsFree e m.entries) : (m.put e).Indexed := by
  intro key sequence
  have hmem : ∀ d, d ∈ (m.put e).entries ↔ d = e ∨ d ∈ m.entries := fun d =>
    mem_place_iff fun y hy => (hfree y hy).1
  -- the new pair shadows whatever the index had under the key, and nothing else
  rw [lookup_put]
  by_cases hkey : key = e.event.dedupKey
  · rw [if_pos hkey]
    constructor
    · intro hseq
      exact ⟨e, (hmem e).mpr (.inl rfl), hkey.symm, Option.some.inj hseq⟩
    · rintro ⟨d, hd, hdkey, rfl⟩
      rcases (hmem d).mp hd with rfl | hd
      · rfl
      · exact absurd (hdkey.trans hkey) (hfree d hd).2
  · rw [if_neg hkey, h key sequence]
    constructor
    · rintro ⟨d, hd, hd'⟩
      exact ⟨d, (hmem d).mpr (.inr hd), hd'⟩
    · rintro ⟨d, hd, hdkey, hdseq⟩
      rcases (hmem d).mp hd with rfl | hd
      · exact absurd hdkey.symm hkey
      · exact ⟨d, hd, hdkey, hdseq⟩

/-- An insert succeeds exactly for what is free. -/
theorem insert_eq_ok_iff (h : m.Indexed) {m' : MemoryStore} :
    m.insert e = .ok m' ↔ IsFree e m.entries ∧ m' = m.put e := by
  rw [MemoryStore.insert_eq_ok_iff]
  constructor
  · rintro ⟨hsequence, hkey, rfl⟩
    exact ⟨fun d hd => ⟨hsequence d hd, h.ne_of_lookup_eq_none hkey d hd⟩, rfl⟩
  · rintro ⟨hfree, rfl⟩
    exact ⟨fun d hd => (hfree d hd).1, h.lookup_eq_none fun d hd => (hfree d hd).2, rfl⟩

/-- An insert that fails finds its sequence or its key taken. -/
theorem insert_eq_error (h : m.Indexed) {err : StoreError} (hins : m.insert e = .error err) :
    (err = .uniqueViolation .sequence ∧ ∃ d ∈ m.entries, d.sequence = e.sequence) ∨
    (err = .uniqueViolation .dedupKey ∧
      ∃ d ∈ m.entries, d.event.dedupKey = e.event.dedupKey) := by
  unfold insert at hins
  split at hins
  · rename_i hseq
    obtain ⟨d, hd⟩ := Option.isSome_iff_exists.mp hseq
    exact .inl ⟨(Except.error.inj hins).symm, d, get?_eq_some_iff.mp hd⟩
  · split at hins
    · rename_i hkey
      obtain ⟨q, hq⟩ := Option.isSome_iff_exists.mp hkey
      obtain ⟨d, hd, hdkey, -⟩ := (h _ q).mp hq
      exact .inr ⟨(Except.error.inj hins).symm, d, hd, hdkey⟩
    · cases hins

end Indexed

/-- An entry that comes behind all others is loaded as it would be put in. -/
theorem load_eq_put (hlt : ∀ d ∈ m.entries, d.sequence < e.sequence) : m.load e = m.put e := by
  have hnone : m.get? e.sequence = none :=
    get?_eq_none_iff.mpr fun d hd => UInt64.ne_of_lt (hlt d hd)
  rw [load, hnone]

theorem ofEntries_concat (es : List Entry) (e : Entry) :
    ofEntries (es ++ [e]) = (ofEntries es).load e := by
  rw [ofEntries, List.foldl_append]
  rfl

/-- A list whose sequences ascend is held as it was loaded, whatever its keys. -/
theorem entries_ofEntries (hasc : Ascending Entry.sequence es) : (ofEntries es).entries = es := by
  -- entries are loaded from the front, so the last one is the last to come in
  induction es using List.reverseRecOn with
  | nil => rfl
  | append_singleton es e ih =>
    have hlt : ∀ d ∈ es, d.sequence < e.sequence := hasc.split.1
    have hentries := ih (List.pairwise_append.mp hasc).1
    rw [ofEntries_concat, load_eq_put (by rwa [hentries])]
    show place Entry.sequence e (ofEntries es).entries = es ++ [e]
    rw [hentries, place_eq_append hlt]

/-- A list whose sequences ascend and whose keys are distinct is held with its index in step. -/
theorem indexed_ofEntries (hasc : Ascending Entry.sequence es)
    (hkeys : es.Pairwise fun a b => a.event.dedupKey ≠ b.event.dedupKey) :
    (ofEntries es).Indexed := by
  induction es using List.reverseRecOn with
  | nil => exact indexed_empty
  | append_singleton es e ih =>
    have hes := (List.pairwise_append.mp hasc).1
    rw [List.pairwise_append] at hkeys
    have hlt : ∀ d ∈ (ofEntries es).entries, d.sequence < e.sequence := by
      rw [entries_ofEntries hes]
      exact hasc.split.1
    rw [ofEntries_concat, load_eq_put hlt]
    refine (ih hes hkeys.1).put fun d hd => ⟨UInt64.ne_of_lt (hlt d hd), ?_⟩
    rw [entries_ofEntries hes] at hd
    exact hkeys.2.2 d hd e (List.mem_singleton_self e)

end MemoryStore

instance : LawfulStore MemoryStore where
  Valid := MemoryStore.Indexed
  held := MemoryStore.entries
  ascending := fun {m} _ => m.ascending
  keys := MemoryStore.Indexed.keys
  find := by
    intro m key found hm hfind e
    obtain rfl : m.find? key = found := Except.ok.inj hfind
    exact hm.find?_eq_some_iff
  tail := fun _ ht => (Except.ok.inj ht).symm
  insert := by
    intro m m' e hm hins
    obtain ⟨hfree, rfl⟩ := hm.insert_eq_ok_iff.mp hins
    exact ⟨hm.put hfree, hfree, rfl⟩

end AuditChain
