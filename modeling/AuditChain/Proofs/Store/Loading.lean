import AuditChain.Proofs.Append.NoFork

/-!
# What the index leads to after loading

Loading takes entries as they come.  An entry makes way for a later one at its sequence, and the
index leads to the entry that came last under a key; so the index can lose a key that is still held:
the last entry under it has made way for an entry of another key, and an earlier one has not.  Such
a key is *orphaned*.  It is not found, and an insert under it goes through; all other keys are found
as long as they are held, whatever is inserted later, and no insert adds to them.

## Main definitions

* `Outlasts` — a member of a list whose place no later member takes.
* `Kept`, `Leads` — what stays of a list that is loaded, and where the index leads.
* `Orphaned` — a key that is held and not found once a list has been loaded.
* `MemoryStore.insertAll` — one insert after another, those that fail included.
* `MemoryStore.Lost` — a key that is held and not found.

## Main results

* `MemoryStore.mem_ofEntries_iff`, `MemoryStore.find?_ofEntries_iff` — what is held once a list has
  been loaded, and what is found.
* `MemoryStore.GrownFrom.insert` — an insert loses no key and finds none again but its own.
* `index_exact` — **only keys that loading has orphaned are lost.**
-/

namespace AuditChain

/-! ### What a list leaves behind -/

/-- `e` is a member of a list, and no later member takes its place. -/
def Outlasts (takes : Entry → Entry → Prop) (es : List Entry) (e : Entry) : Prop :=
  ∃ before after, es = before ++ e :: after ∧ ∀ d ∈ after, ¬takes d e

theorem not_outlasts_nil {takes : Entry → Entry → Prop} {e : Entry} : ¬Outlasts takes [] e := by
  rintro ⟨before, after, heq, -⟩
  simp at heq

theorem outlasts_concat_iff {takes : Entry → Entry → Prop} {es : List Entry} {d e : Entry} :
    Outlasts takes (es ++ [d]) e ↔ e = d ∨ Outlasts takes es e ∧ ¬takes d e := by
  constructor
  · rintro ⟨before, after, heq, hafter⟩
    rcases List.eq_nil_or_concat after with rfl | ⟨init, x, rfl⟩
    · exact .inl (List.singleton_inj.mp (List.append_inj' heq rfl).2).symm
    · rw [List.concat_eq_append, ← List.cons_append, ← List.append_assoc] at heq
      obtain ⟨rfl, hx⟩ := List.append_inj' heq rfl
      obtain rfl : d = x := by simpa using hx
      simp only [List.concat_eq_append, List.mem_append, List.mem_singleton] at hafter
      exact .inr ⟨⟨before, init, rfl, fun y hy => hafter y (.inl hy)⟩, hafter d (.inr rfl)⟩
  · rintro (rfl | ⟨⟨before, after, rfl, hafter⟩, hd⟩)
    · exact ⟨es, [], rfl, by simp⟩
    · refine ⟨before, after ++ [d], by simp, ?_⟩
      intro x hx
      rcases List.mem_append.mp hx with hx | hx
      · exact hafter x hx
      · rw [List.mem_singleton.mp hx]
        exact hd

/-- What stays of a list that is loaded: no later member has the sequence. -/
def Kept : List Entry → Entry → Prop :=
  Outlasts fun d e => d.sequence = e.sequence

/-- Where the index leads once a list has been loaded: no later member has the sequence or the
key. -/
def Leads : List Entry → Entry → Prop :=
  Outlasts fun d e => d.sequence = e.sequence ∨ d.event.dedupKey = e.event.dedupKey

theorem Leads.kept {es : List Entry} {e : Entry} (h : Leads es e) : Kept es e := by
  obtain ⟨before, after, heq, hafter⟩ := h
  exact ⟨before, after, heq, fun d hd hseq => hafter d hd (.inl hseq)⟩

/-- A key under which something is kept, but not what came last under it. -/
def Orphaned (es : List Entry) (key : DedupKey) : Prop :=
  (∃ e, Kept es e ∧ e.event.dedupKey = key) ∧ ∀ e, Leads es e → e.event.dedupKey ≠ key

/-- What is placed in an ascending list makes what has its key give way, and nothing else. -/
theorem Ascending.mem_place_iff {xs : List Entry} (hasc : Ascending Entry.sequence xs)
    {a x : Entry} :
    x ∈ AuditChain.place Entry.sequence a xs ↔ x = a ∨ x ∈ xs ∧ x.sequence ≠ a.sequence := by
  induction xs with
  | nil => simp [AuditChain.place]
  | cons y ys ih =>
    obtain ⟨hy, hys⟩ := List.pairwise_cons.mp hasc
    rw [AuditChain.place]
    split
    · rename_i hlt
      have hne : ∀ z ∈ y :: ys, z.sequence ≠ a.sequence := by
        intro z hz
        rcases List.mem_cons.mp hz with rfl | hz
        · exact (UInt64.ne_of_lt hlt).symm
        · exact (UInt64.ne_of_lt (UInt64.lt_trans hlt (hy z hz))).symm
      rw [List.mem_cons]
      exact or_congr_right ⟨fun hx => ⟨hx, hne x hx⟩, And.left⟩
    · split
      · rename_i heq
        have hne : ∀ z ∈ ys, z.sequence ≠ a.sequence := by
          intro z hz
          rw [heq]
          exact (UInt64.ne_of_lt (hy z hz)).symm
        rw [List.mem_cons, List.mem_cons]
        refine or_congr_right ⟨fun hx => ⟨.inr hx, hne x hx⟩, ?_⟩
        rintro ⟨rfl | hx, hxne⟩
        · exact absurd heq.symm hxne
        · exact hx
      · rename_i hne
        rw [List.mem_cons, List.mem_cons, ih hys]
        constructor
        · rintro (rfl | rfl | ⟨hx, hxne⟩)
          · exact .inr ⟨.inl rfl, Ne.symm hne⟩
          · exact .inl rfl
          · exact .inr ⟨.inr hx, hxne⟩
        · rintro (rfl | ⟨rfl | hx, hxne⟩)
          · exact .inr (.inl rfl)
          · exact .inl rfl
          · exact .inr (.inr ⟨hx, hxne⟩)

namespace MemoryStore

variable {m m' : MemoryStore} {e : Entry} {key : DedupKey}

/-! ### The index -/

/-- The index leads to nothing but what is held under the key. -/
def IndexSound (m : MemoryStore) : Prop :=
  ∀ key sequence, m.index.lookup key = some sequence →
    ∃ e ∈ m.entries, e.event.dedupKey = key ∧ e.sequence = sequence

theorem lookup_unindex (m : MemoryStore) (k key : DedupKey) (sequence : UInt64) :
    (m.unindex k sequence).index.lookup key =
      if key = k ∧ m.index.lookup key = some sequence then none else m.index.lookup key := by
  rw [unindex]
  by_cases hkey : key = k
  · subst hkey
    split
    · rename_i hlookup
      rw [if_pos ⟨rfl, hlookup⟩]
      refine List.lookup_eq_none_iff.mpr fun p hp => ?_
      have hne : p.1 ≠ key := by simpa using (List.mem_filter.mp hp).2
      exact bne_iff_ne.mpr hne.symm
    · rename_i hlookup
      rw [if_neg fun h => hlookup h.2]
  · have hother : ¬(key = k ∧ m.index.lookup key = some sequence) := fun h => hkey h.1
    rw [if_neg hother]
    split
    · exact lookup_filter_of_ne hkey m.index
    · rfl

theorem entries_unindex (m : MemoryStore) (k : DedupKey) (sequence : UInt64) :
    (m.unindex k sequence).entries = m.entries := by
  rw [unindex]
  split <;> rfl

/-- Loading puts the entry at its place. -/
theorem entries_load (m : MemoryStore) (e : Entry) :
    (m.load e).entries = place Entry.sequence e m.entries := by
  rw [load]
  split
  · show place Entry.sequence e (m.unindex _ _).entries = _
    rw [entries_unindex]
  · rfl

/-- Loading makes the index lead to the entry under its key, and takes back what led to its
sequence. -/
theorem lookup_load (h : m.IndexSound) (e : Entry) (key : DedupKey) :
    (m.load e).index.lookup key = if key = e.event.dedupKey then some e.sequence
      else if m.index.lookup key = some e.sequence then none else m.index.lookup key := by
  -- whatever led to the sequence led to the entry that is there
  have hthere : m.index.lookup key = some e.sequence →
      ∃ d, m.get? e.sequence = some d ∧ d.event.dedupKey = key := by
    intro hlookup
    obtain ⟨d, hd, hdkey, hdseq⟩ := h key e.sequence hlookup
    exact ⟨d, get?_eq_some_iff.mpr ⟨hd, hdseq⟩, hdkey⟩
  rw [load]
  cases hget : m.get? e.sequence with
  | none =>
    have hnone : m.index.lookup key ≠ some e.sequence := by
      intro hlookup
      obtain ⟨d, hd, -⟩ := hthere hlookup
      rw [hget] at hd
      cases hd
    rw [if_neg hnone]
    exact lookup_put m e key
  | some replaced =>
    show ((m.unindex replaced.event.dedupKey e.sequence).put e).index.lookup key = _
    rw [lookup_put, lookup_unindex]
    refine if_congr Iff.rfl rfl (if_congr ⟨And.right, fun hlookup => ⟨?_, hlookup⟩⟩ rfl rfl)
    obtain ⟨d, hd, rfl⟩ := hthere hlookup
    rw [Option.some.inj (hget.symm.trans hd)]

theorem find?_eq_some_iff_of_sound (h : m.IndexSound) : m.find? key = some e ↔
    m.index.lookup key = some e.sequence ∧ e ∈ m.entries ∧ e.event.dedupKey = key := by
  rw [find?, Option.bind_eq_some_iff]
  constructor
  · rintro ⟨sequence, hlookup, he⟩
    obtain ⟨d, hd, hdkey, hdseq⟩ := h key sequence hlookup
    have hde : m.get? sequence = some d := get?_eq_some_iff.mpr ⟨hd, hdseq⟩
    obtain rfl := Option.some.inj (hde.symm.trans he)
    exact ⟨hdseq ▸ hlookup, hd, hdkey⟩
  · rintro ⟨hlookup, he, -⟩
    exact ⟨e.sequence, hlookup, get?_eq_some_iff.mpr ⟨he, rfl⟩⟩

theorem find?_eq_none_iff_of_sound (h : m.IndexSound) :
    m.find? key = none ↔ m.index.lookup key = none := by
  constructor
  · intro hfind
    cases hlookup : m.index.lookup key with
    | none => rfl
    | some sequence =>
      obtain ⟨e, he, hkey, rfl⟩ := h key sequence hlookup
      rw [(find?_eq_some_iff_of_sound h).mpr ⟨hlookup, he, hkey⟩] at hfind
      cases hfind
  · intro hlookup
    rw [find?, hlookup]
    rfl

/-! ### Loading a list -/

/-- What a store holds, and where its index leads, once a list has been loaded. -/
structure Loaded (es : List Entry) (m : MemoryStore) : Prop where
  mem_iff : ∀ e, e ∈ m.entries ↔ Kept es e
  lookup_iff : ∀ key sequence, m.index.lookup key = some sequence ↔
    ∃ e, Leads es e ∧ e.event.dedupKey = key ∧ e.sequence = sequence

variable {es : List Entry}

theorem Loaded.indexSound (h : Loaded es m) : m.IndexSound := by
  intro key sequence hlookup
  obtain ⟨e, he, hkey, hseq⟩ := (h.lookup_iff key sequence).mp hlookup
  exact ⟨e, (h.mem_iff e).mpr he.kept, hkey, hseq⟩

theorem Loaded.load (h : Loaded es m) (e : Entry) : Loaded (es ++ [e]) (m.load e) where
  mem_iff := by
    intro d
    rw [entries_load, m.ascending.mem_place_iff, h.mem_iff, Kept, outlasts_concat_iff, ne_comm]
  lookup_iff := by
    intro key sequence
    rw [lookup_load h.indexSound]
    simp only [Leads, outlasts_concat_iff, not_or]
    by_cases hkey : key = e.event.dedupKey
    · rw [if_pos hkey]
      constructor
      · intro hseq
        exact ⟨e, .inl rfl, hkey.symm, Option.some.inj hseq⟩
      · rintro ⟨d, rfl | ⟨-, -, hne⟩, hdkey, hdseq⟩
        · rw [hdseq]
        · exact absurd (hkey.symm.trans hdkey.symm) hne
    · rw [if_neg hkey]
      have hlookup : (if m.index.lookup key = some e.sequence then none
          else m.index.lookup key) = some sequence ↔
          m.index.lookup key = some sequence ∧ e.sequence ≠ sequence := by
        split
        · rename_i hled
          simp [hled]
        · rename_i hled
          exact ⟨fun hsome => ⟨hsome, fun heq => hled (heq ▸ hsome)⟩, And.left⟩
      rw [hlookup, h.lookup_iff]
      constructor
      · rintro ⟨⟨d, hd, rfl, rfl⟩, hne⟩
        exact ⟨d, .inr ⟨hd, hne, Ne.symm hkey⟩, rfl, rfl⟩
      · rintro ⟨d, rfl | ⟨hd, hne, -⟩, hdkey, rfl⟩
        · exact absurd hdkey.symm hkey
        · exact ⟨⟨d, hd, hdkey, rfl⟩, hne⟩

theorem loaded_ofEntries (es : List Entry) : Loaded es (ofEntries es) := by
  induction es using List.reverseRecOn with
  | nil =>
    refine ⟨fun e => ?_, fun key sequence => ?_⟩
    · simp [ofEntries, empty, Kept, not_outlasts_nil]
    · simp [ofEntries, empty, Leads, not_outlasts_nil]
  | append_singleton es e ih =>
    rw [ofEntries_concat]
    exact ih.load e

/-- Of a list that is loaded, those entries are held whose sequence comes no more. -/
theorem mem_ofEntries_iff : e ∈ (ofEntries es).entries ↔ Kept es e :=
  (loaded_ofEntries es).mem_iff e

/-- Of a list that is loaded, that entry is found whose key and whose sequence come no more. -/
theorem find?_ofEntries_iff :
    (ofEntries es).find? key = some e ↔ Leads es e ∧ e.event.dedupKey = key := by
  have hloaded := loaded_ofEntries es
  rw [find?_eq_some_iff_of_sound hloaded.indexSound, hloaded.lookup_iff, hloaded.mem_iff]
  constructor
  · rintro ⟨⟨d, hd, rfl, hdseq⟩, he, hekey⟩
    have hmem := (hloaded.mem_iff d).mpr hd.kept
    have hde : d = e := eq_of_pairwise_ne (ofEntries es).ascending.pairwise_ne hmem
      ((hloaded.mem_iff e).mpr he) hdseq
    exact ⟨hde ▸ hd, hekey⟩
  · rintro ⟨he, hekey⟩
    exact ⟨⟨e, he, hekey, rfl⟩, he.kept, hekey⟩

/-! ### Inserts after loading -/

/-- One insert after another; those that fail change nothing. -/
def insertAll (m : MemoryStore) (ds : List Entry) : MemoryStore :=
  ds.foldl (fun m d => match m.insert d with | .ok m' => m' | .error _ => m) m

/-- The key is held and not found. -/
def Lost (m : MemoryStore) (key : DedupKey) : Prop :=
  m.find? key = none ∧ ∃ e ∈ m.entries, e.event.dedupKey = key

/-- A store that inserts have led to from another. -/
structure GrownFrom (m₀ m : MemoryStore) : Prop where
  /-- The index leads to nothing but what is held under the key. -/
  sound : m.IndexSound
  /-- What was held is held. -/
  held : m₀.entries ⊆ m.entries
  /-- The index leads nowhere from the keys from which it led nowhere and under which nothing has
  come in. -/
  unled_iff : ∀ key, m.index.lookup key = none ↔ m₀.index.lookup key = none ∧
    ∀ d ∈ m.entries, d.event.dedupKey = key → d ∈ m₀.entries

namespace GrownFrom

variable {m₀ : MemoryStore}

theorem start (h : m₀.IndexSound) : GrownFrom m₀ m₀ where
  sound := h
  held := List.Subset.refl _
  unled_iff := fun _ => ⟨fun hkey => ⟨hkey, fun _ hd _ => hd⟩, And.left⟩

/-- An insert loses no key and finds none again but its own. -/
theorem insert (h : GrownFrom m₀ m) (hins : m.insert e = .ok m') : GrownFrom m₀ m' := by
  obtain ⟨hfree, hkey, rfl⟩ := insert_eq_ok_iff.mp hins
  have hmem : ∀ d, d ∈ (m.put e).entries ↔ d = e ∨ d ∈ m.entries := fun d => mem_place_iff hfree
  refine ⟨?_, fun d hd => (hmem d).mpr (.inr (h.held hd)), ?_⟩
  · intro key sequence hlookup
    rw [lookup_put] at hlookup
    split at hlookup
    · rename_i heq
      exact ⟨e, (hmem e).mpr (.inl rfl), heq.symm, Option.some.inj hlookup⟩
    · obtain ⟨d, hd, hd'⟩ := h.sound key sequence hlookup
      exact ⟨d, (hmem d).mpr (.inr hd), hd'⟩
  · intro key
    rw [lookup_put]
    by_cases heq : key = e.event.dedupKey
    · -- the entry is new, so it was not there in the beginning
      have hnew : e ∉ m₀.entries := fun he => hfree e (h.held he) rfl
      rw [if_pos heq]
      constructor
      · intro hnone
        cases hnone
      · rintro ⟨-, hold⟩
        exact absurd (hold e ((hmem e).mpr (.inl rfl)) heq.symm) hnew
    · rw [if_neg heq, h.unled_iff]
      refine and_congr_right fun _ => ⟨fun hold d hd hdkey => ?_, fun hold d hd hdkey => ?_⟩
      · rcases (hmem d).mp hd with rfl | hd
        · exact absurd hdkey.symm heq
        · exact hold d hd hdkey
      · exact hold d ((hmem d).mpr (.inr hd)) hdkey

theorem insertAll (h : GrownFrom m₀ m) (ds : List Entry) : GrownFrom m₀ (m.insertAll ds) := by
  induction ds generalizing m with
  | nil => exact h
  | cons d ds ih =>
    rw [MemoryStore.insertAll, List.foldl_cons]
    cases hins : m.insert d with
    | error err => exact ih h
    | ok m' => exact ih (h.insert hins)

/-- So does a run of any programs. -/
theorem run {ι α : Type} [DecidableEq ι] {P Q : Pool ledger ι MemoryStore α}
    {h : List (Move ledger ι MemoryStore)} (hgrown : GrownFrom m₀ P.state)
    (hrun : Run Unreliable P h Q) : GrownFrom m₀ Q.state := by
  induction hrun with
  | start => exact hgrown
  | move _ _ hans ih =>
    rcases hans.state_cases with hsame | ⟨e, reply, -, hins⟩
    · rw [hsame]
      exact ih
    · exact ih.insert hins

/-- An insert that goes through finds nothing held under its key, unless the key is lost. -/
theorem lost_of_insert (h : GrownFrom m₀ m) (hins : m.insert e = .ok m')
    (htaken : ∃ d ∈ m.entries, d.event.dedupKey = e.event.dedupKey) : m.Lost e.event.dedupKey := by
  obtain ⟨-, hkey, -⟩ := insert_eq_ok_iff.mp hins
  exact ⟨(find?_eq_none_iff_of_sound h.sound).mpr hkey, htaken⟩

end GrownFrom

end MemoryStore

open MemoryStore (ofEntries Lost GrownFrom)

/-- The index of a store that was loaded from a list: whatever has been inserted since, the keys
that the list has orphaned are lost until they are inserted again, and no others are. -/
structure IndexExact (es : List Entry) (m : MemoryStore) : Prop where
  /-- What is found under a key is held under it. -/
  found : ∀ key e, m.find? key = some e → e ∈ m.entries ∧ e.event.dedupKey = key
  /-- What is held under a key is found, unless the key was orphaned and nothing has come in under
  it since. -/
  lost_iff : ∀ key, m.Lost key ↔
    Orphaned es key ∧ ∀ e ∈ m.entries, e.event.dedupKey = key → Kept es e
  /-- An insert adds to what is held under a key only if the key is lost. -/
  fresh : ∀ e m', m.insert e = .ok m' →
    (∃ d ∈ m.entries, d.event.dedupKey = e.event.dedupKey) → m.Lost e.event.dedupKey
  /-- Under a lost key it does, wherever there is room. -/
  refilled : ∀ e, m.Lost e.event.dedupKey → (∀ d ∈ m.entries, d.sequence ≠ e.sequence) →
    m.insert e = .ok (m.put e)

theorem indexExact_of_grown {es : List Entry} {m : MemoryStore}
    (h : GrownFrom (ofEntries es) m) : IndexExact es m where
  found := by
    intro key e hfind
    exact ((MemoryStore.find?_eq_some_iff_of_sound h.sound).mp hfind).2
  lost_iff := by
    intro key
    have hloaded := MemoryStore.loaded_ofEntries es
    have hled : (ofEntries es).index.lookup key = none ↔
        ∀ e, Leads es e → e.event.dedupKey ≠ key := by
      rw [Option.eq_none_iff_forall_ne_some]
      constructor
      · intro hnone e he hekey
        exact hnone e.sequence ((hloaded.lookup_iff key e.sequence).mpr ⟨e, he, hekey, rfl⟩)
      · intro hnone sequence hlookup
        obtain ⟨e, he, hekey, -⟩ := (hloaded.lookup_iff key sequence).mp hlookup
        exact hnone e he hekey
    rw [Lost, MemoryStore.find?_eq_none_iff_of_sound h.sound, h.unled_iff, hled]
    simp only [hloaded.mem_iff]
    constructor
    · rintro ⟨⟨hunled, hold⟩, e, he, hekey⟩
      exact ⟨⟨⟨e, hold e he hekey, hekey⟩, hunled⟩, hold⟩
    · rintro ⟨⟨⟨e, he, hekey⟩, hunled⟩, hold⟩
      exact ⟨⟨hunled, hold⟩, e, h.held ((hloaded.mem_iff e).mpr he), hekey⟩
  fresh := fun _ _ hins htaken => h.lost_of_insert hins htaken
  refilled := by
    intro e hlost hfree
    have hkey := (MemoryStore.find?_eq_none_iff_of_sound h.sound).mp hlost.1
    exact MemoryStore.insert_eq_ok_iff.mpr ⟨hfree, hkey, rfl⟩

/-- **Only keys that loading has orphaned are lost.**  A store is loaded from any list; any inserts
follow, and then writers share it, with calls that may fail.  Whenever one looks, a key is held and
not found just if the list has orphaned it and nothing has come in under it since; and only under
such a key is an entry added to one that is held. -/
theorem index_exact {ι : Type} [DecidableEq ι] (es ds : List Entry) (policy : ι → RetryPolicy)
    (event : ι → Event) :
    IndexExact es ((ofEntries es).insertAll ds) ∧
    ∀ h Q, Run Unreliable (writers ((ofEntries es).insertAll ds) policy event) h Q →
      IndexExact es Q.state ∧ ∀ m ∈ h, IndexExact es m.before ∧
        ∀ e, m.Adds e → (∃ d ∈ m.before.entries, d.event.dedupKey = e.event.dedupKey) →
          m.before.Lost e.event.dedupKey := by
  have hgrown : GrownFrom (ofEntries es) ((ofEntries es).insertAll ds) :=
    (GrownFrom.start (MemoryStore.loaded_ofEntries es).indexSound).insertAll ds
  refine ⟨indexExact_of_grown hgrown, ?_⟩
  intro h Q hrun
  refine ⟨indexExact_of_grown (hgrown.run hrun), ?_⟩
  intro m hm
  obtain ⟨later, earlier, rfl⟩ := List.append_of_mem hm
  obtain ⟨R, hR, -⟩ := hrun.split
  obtain ⟨S, -, hS, hstate, -, hans, -⟩ := hR.last
  have hbefore : GrownFrom (ofEntries es) m.before := hstate ▸ hgrown.run hS
  refine ⟨indexExact_of_grown hbefore, ?_⟩
  rintro e ⟨hold, hnew⟩ htaken
  rcases hans.state_cases with hsame | ⟨d, reply, -, hins⟩
  · rw [hsame] at hnew
    exact absurd hnew hold
  · -- the entry that has come in is the one that was inserted
    obtain ⟨hfree, -, hput⟩ := MemoryStore.insert_eq_ok_iff.mp hins
    have hmem : e ∈ (m.before.put d).entries := hput ▸ hnew
    rcases (mem_place_iff hfree).mp hmem with rfl | hheld
    · exact hbefore.lost_of_insert hins htaken
    · exact absurd hheld hold

/-- A key that comes at two sequences, and another key at the later one. -/
def overwritten : List Entry :=
  [.sealed 0 (.bare "first" "1") genesisHash, .sealed 1 (.bare "first" "2") genesisHash,
    .sealed 1 (.bare "second" "1") genesisHash]

/-- The first key is held and not found, so it is appended again. -/
theorem index_exact_overwritten :
    let m := (ofEntries overwritten).insertAll []
    let P := writers m (fun _ : Unit => {}) fun _ => .bare "first" "3"
    let schedule := List.replicate 6 ((), Answer.serve false)
    let Q := (P.play schedule).2
    m.entries.map (fun e => e.event.dedupKey.text) = ["first", "second"] ∧
      m.Lost (Event.bare "first" "1").dedupKey ∧
      Q.state.entries.map (fun e => e.event.dedupKey.text) = ["first", "second", "first"] ∧
      IndexExact overwritten m ∧ IndexExact overwritten Q.state := by
  intro m P schedule Q
  have hexact := index_exact overwritten [] (fun _ : Unit => {}) fun _ => .bare "first" "3"
  have hlost : m.Lost (Event.bare "first" "1").dedupKey := ⟨by decide +kernel, by decide +kernel⟩
  exact ⟨by decide +kernel, hlost, by decide +kernel, hexact.1,
    (hexact.2 _ _ (P.run_play schedule)).1⟩

end AuditChain
