import AuditChain.Proofs.Append.NoFork

/-!
# Reading a chain that grows

Whoever reads a range of a chain in batches may find the chain grown from one batch to the next.  It
does no harm: what has come in since is behind all that was there, so what was read stays the
beginning of the range, and the next batch begins where the last one ended.  A batch that is not
full was all that there was left when it was read.

## Main definitions

* `Growing` — what a reader of a growing chain is shown.
* `ReadTo` — what has been read of a range, however the chain grows.

## Main results

* `isSlice_within` — the window of a chain is a piece of it.
* `ReadTo.go`, `ReadTo.stop` — how reading goes on after a batch, and where it ends.
* `Run.growing` — **callers who only append are shown a growing chain.**
-/

namespace AuditChain

/-! ### Windows of chains -/

/-- Places tell what the window of a chain is. -/
theorem within_eq_drop_take {es : List Entry} (h : IsSlice 0 es) (first last : UInt64) :
    within Entry.sequence first last es = (es.take (last.toNat + 1)).drop first.toNat := by
  -- from the back, where the place of an entry is the length of what comes before it
  induction es using List.reverseRecOn with
  | nil => simp [within]
  | append_singleton es e ih =>
    obtain ⟨hes, he⟩ := isSlice_concat_iff.mp h
    have hplace : e.sequence.toNat = es.length := by
      rw [he.sequence, Nat.zero_add]
    have hsplit : within Entry.sequence first last (es ++ [e]) =
        within Entry.sequence first last es ++ within Entry.sequence first last [e] :=
      List.filter_append ..
    rw [hsplit, ih hes, List.take_append, List.drop_append, List.length_take]
    congr 1
    by_cases hmem : first.toNat ≤ es.length ∧ es.length ≤ last.toNat
    · have hself : within Entry.sequence first last [e] = [e] := by
        refine within_eq_self fun d hd => ?_
        rw [List.mem_singleton.mp hd, UInt64.le_iff_toNat_le, UInt64.le_iff_toNat_le, hplace]
        exact hmem
      rw [hself, List.take_of_length_le (by rw [List.length_singleton]; omega),
        Nat.sub_eq_zero_of_le (by omega), List.drop_zero]
    · have hnone : within Entry.sequence first last [e] = [] := by
        refine List.eq_nil_iff_forall_not_mem.mpr fun d hd => hmem ?_
        obtain ⟨hd, hbounds⟩ := mem_within.mp hd
        rwa [List.mem_singleton.mp hd, UInt64.le_iff_toNat_le, UInt64.le_iff_toNat_le, hplace]
          at hbounds
      rw [hnone, List.drop_of_length_le]
      rw [List.length_take, List.length_singleton]
      omega

/-- The window of a chain is a piece of it. -/
theorem isSlice_within {es : List Entry} (h : IsSlice 0 es) (first last : UInt64) :
    IsSlice first.toNat (within Entry.sequence first last es) := by
  have htake : IsSlice 0 (es.take (last.toNat + 1)) := by
    rw [← List.take_append_drop (last.toNat + 1) es] at h
    exact h.of_append
  have hdrop := htake.drop first.toNat
  rw [Nat.zero_add] at hdrop
  rwa [within_eq_drop_take h]

theorem within_begins {xs ys : List Entry} (h : xs <+: ys) (first last : UInt64) :
    within Entry.sequence first last xs <+: within Entry.sequence first last ys :=
  h.filter _

/-! ### What a reader is shown -/

section Reads

variable {ι : Type} {own : List (Move ledger ι MemoryStore)} {m : Move ledger ι MemoryStore}

/-- A store in memory answers, it holds a chain each time, and the chain grows from one time to the
next. -/
structure Growing (own : List (Move ledger ι MemoryStore)) : Prop where
  /-- The store answers. -/
  served : ∀ m ∈ own, Serves m.before m.exchange m.after
  /-- It holds a chain. -/
  chain : ∀ m ∈ own, IsChain m.before.entries
  /-- An older chain is the beginning of a newer one. -/
  grown : own.Pairwise fun newer older => older.before.entries <+: newer.before.entries

namespace Growing

theorem of_cons (h : Growing (m :: own)) : Growing own where
  served := (List.forall_mem_cons.mp h.served).2
  chain := (List.forall_mem_cons.mp h.chain).2
  grown := (List.pairwise_cons.mp h.grown).2

theorem filter (h : Growing own) (p : Move ledger ι MemoryStore → Bool) :
    Growing (own.filter p) where
  served := fun m hm => h.served m (List.mem_of_mem_filter hm)
  chain := fun m hm => h.chain m (List.mem_of_mem_filter hm)
  grown := h.grown.filter p

/-- What was there at any time is the beginning of what is there at the last. -/
theorem begins (h : Growing (m :: own)) :
    ∀ n ∈ m :: own, n.before.entries <+: m.before.entries :=
  List.forall_mem_cons.mpr ⟨List.prefix_rfl, (List.pairwise_cons.mp h.grown).1⟩

/-- A range is read as the window of the chain. -/
theorem range_eq {i : ι} {s s' : MemoryStore} {a b limit : UInt64}
    {reply : Except StoreError (List Entry)}
    (h : Growing (⟨i, s, ⟨.range a b limit, reply⟩, s'⟩ :: own)) :
    reply = .ok ((within Entry.sequence a b s.entries).take limit.toNat) := by
  obtain ⟨cancelled, hreply⟩ := h.served _ List.mem_cons_self
  exact (Prod.mk.inj hreply).1.symm

theorem tail_eq {i : ι} {s s' : MemoryStore} {reply : Except StoreError (Option ChainTail)}
    (h : Growing (⟨i, s, ⟨.tail, reply⟩, s'⟩ :: own)) : reply = .ok s.tail := by
  obtain ⟨cancelled, hreply⟩ := h.served _ List.mem_cons_self
  exact (Prod.mk.inj hreply).1.symm

end Growing

/-! ### Batches of a range -/

/-- The reads so far have taken `passed` off a range, and `next` comes next; so it is for every
chain that the store can have grown to by now. -/
def ReadTo (first last next : UInt64) (passed : List Entry)
    (own : List (Move ledger ι MemoryStore)) : Prop :=
  ∀ es, IsChain es → (∀ m ∈ own, m.before.entries <+: es) →
    within Entry.sequence first last es = passed ++ within Entry.sequence next last es

namespace ReadTo

theorem start (first last : UInt64) (own : List (Move ledger ι MemoryStore)) :
    ReadTo first last first [] own :=
  fun _ _ _ => rfl

variable {first last next batch : UInt64} {passed taken : List Entry} {newest : Entry}

theorem cons (h : ReadTo first last next passed own) (m : Move ledger ι MemoryStore) :
    ReadTo first last next passed (m :: own) :=
  fun es hes hbegins => h es hes (List.forall_mem_cons.mp hbegins).2

section Batch

variable (h : ReadTo first last next passed own) (hgrowing : Growing (m :: own))
  (htaken : (within Entry.sequence next last m.before.entries).take batch.toNat = taken)

include h hgrowing htaken

/-- A batch continues what was read before. -/
theorem exists_rest :
    ∃ rest, within Entry.sequence next last m.before.entries = taken ++ rest ∧
      within Entry.sequence first last m.before.entries = passed ++ taken ++ rest ∧
      (taken.length < batch.toNat → rest = []) := by
  obtain ⟨_, rest, hwindow, rfl, -, hfull⟩ :=
    exists_take batch.toNat (within Entry.sequence next last m.before.entries)
  rw [htaken] at hwindow hfull
  refine ⟨rest, hwindow, ?_, hfull⟩
  -- what was read before is the beginning of the range also in this newer chain
  rw [h m.before.entries (hgrowing.chain m List.mem_cons_self)
    (List.forall_mem_cons.mp hgrowing.begins).2, hwindow, List.append_assoc]

/-- What was read is a piece of a chain. -/
theorem isSlice : IsSlice first.toNat (passed ++ taken) := by
  obtain ⟨rest, -, hwindow, -⟩ := h.exists_rest hgrowing htaken
  have hslice := isSlice_within (hgrowing.chain m List.mem_cons_self).toIsSlice first last
  rw [hwindow] at hslice
  exact hslice.of_append

/-- The next batch begins behind the last entry of this one, whatever comes in meanwhile. -/
theorem go (hnewest : taken.getLast? = some newest) (hlt : newest.sequence < last) :
    ReadTo first last (newest.sequence + 1) (passed ++ taken) (m :: own) := by
  intro es hes hbegins
  obtain ⟨rest, hwindow, -, -⟩ := h.exists_rest hgrowing htaken
  obtain ⟨hm, hown⟩ := List.forall_mem_cons.mp hbegins
  obtain ⟨more, hmore⟩ := within_begins hm next last
  obtain ⟨init, rfl⟩ := List.getLast?_eq_some_iff.mp hnewest
  -- what has come in since is behind what was left then
  have hsplit : within Entry.sequence next last es = init ++ newest :: (rest ++ more) := by
    rw [← hmore, hwindow]
    simp
  rw [h es hes hown, within_after hes.toIsSlice.ascending hsplit hlt, hsplit]
  simp

/-- A batch that is not full, or that comes to the end of the range, is the last one. -/
theorem stop (hnewest : taken.getLast? = some newest)
    (hstop : ¬(batch.toNat ≤ taken.length ∧ next ≤ newest.sequence ∧ newest.sequence < last)) :
    within Entry.sequence first last m.before.entries = passed ++ taken := by
  obtain ⟨rest, hwindow, hall, hfull⟩ := h.exists_rest hgrowing htaken
  obtain ⟨init, rfl⟩ := List.getLast?_eq_some_iff.mp hnewest
  have hsplit : within Entry.sequence next last m.before.entries = init ++ newest :: rest := by
    rw [hwindow]
    simp
  rw [hall, rest_eq_nil_of_stop m.before.ascending hsplit hfull hstop, List.append_nil]

end Batch

/-- A batch without entries comes after the last one. -/
theorem stop_of_nil (h : ReadTo first last next passed own) (hgrowing : Growing (m :: own))
    (hbatch : 0 < batch.toNat)
    (hnone : (within Entry.sequence next last m.before.entries).take batch.toNat = []) :
    within Entry.sequence first last m.before.entries = passed := by
  obtain ⟨rest, -, hall, hfull⟩ := h.exists_rest hgrowing hnone
  rw [hall, hfull hbatch, List.append_nil, List.append_nil]

end ReadTo

end Reads

/-! ### Callers who append -/

/-- **Callers who only append are shown a growing chain**, each of them, by a store in memory. -/
theorem Run.growing {ι α : Type} [DecidableEq ι] {P Q : Pool ledger ι MemoryStore α}
    {kind : Event → Prop} {h : List (Move ledger ι MemoryStore)} (hP : P.state.Indexed)
    (hchain : IsChain P.state.entries) (happends : ∀ i, Appends kind (P.program i) [])
    (hrun : Run Serves P h Q) (i : ι) : Growing (movesOf i h) := by
  have hchained := (hrun.mono fun _ _ _ => Or.inl).chained hP hchain happends
  suffices hall : Growing h from hall.filter _
  refine ⟨hrun.answered, hchained.wasChain, ?_⟩
  refine hchained.account.ordered.imp_of_mem ?_
  intro newer older hnewer holder hsub
  -- nothing is lost from one move to the next, and of two chains the smaller is the beginning
  have hkept := (hchained.account.answered older holder).held_subset
    (hchained.account.wasValid older holder)
  exact (hchained.wasChain older holder).toIsSlice.prefix_of_subset
    (hchained.wasChain newer hnewer).toIsSlice (List.Subset.trans hkept hsub)

end AuditChain
