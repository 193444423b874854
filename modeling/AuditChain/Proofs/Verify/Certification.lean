import AuditChain.Proofs.Verify.Illegible
import AuditChain.Proofs.Verify.Tampering

/-!
# What an intact report certifies

A verification of everything sees what the tail and the ranges of a store show it; lookups and pages
go through other queries.  If it finds the store intact, it has seen every entry that any of them can
show: from sequence zero on nothing is left out, whatever somebody has put into the store.

A table may have rows below zero, which no insert makes.  They are in no range and after no tail, so
they are not verified, and the report does not count them.  But no query shows an entry in such a row
either.

## Main definitions

* `Covers` — all entries that a store can be made to show are among these.
* `Certifies` — a report is about a chain, and the chain covers the store.

## Main results

* `Located.of_intact` — an intact range is a piece of a chain.
* `covers_of_slots` — a table shows no other entries than those of the rows from zero on.
* `intact_certifies` — **what an intact report on everything certifies.**
* `intact_below_zero` — it does not count rows below zero.
-/

namespace AuditChain

/-- All entries that a store can be made to show are among these. -/
structure Covers {σ : Type} [Store σ] (s : σ) (es : List Entry) : Prop where
  /-- Lookups show no other. -/
  find : ∀ key e, Store.find s key = .ok (some e) → e ∈ es
  /-- Ranges show no other. -/
  range : ∀ a b limit shown, Store.range s a b limit = .ok shown → ∀ e ∈ shown, e ∈ es
  /-- Pages show no other. -/
  latest : ∀ offset limit slice, Store.latest s offset limit = .ok slice → ∀ e ∈ slice.items, e ∈ es

/-- A store in memory shows the entries in it. -/
theorem covers_memory (m : MemoryStore) : Covers m m.entries where
  find := by
    intro key e hfind
    obtain ⟨sequence, -, hget⟩ := Option.bind_eq_some_iff.mp (Except.ok.inj hfind)
    exact List.mem_of_find?_eq_some hget
  range := by
    rintro a b limit shown ⟨⟩ e he
    exact (List.mem_filter.mp (List.mem_of_mem_take he)).1
  latest := by
    rintro offset limit slice ⟨⟩ e he
    exact List.mem_reverse.mp (List.mem_of_mem_drop (List.mem_of_mem_take he))

/-! ### Rows from zero on -/

theorem exists_of_map_eq_ok {ε α β : Type} {f : α → β} {x : Except ε α} {b : β}
    (h : x.map f = .ok b) : ∃ a, x = .ok a ∧ f a = b := by
  cases x with
  | error err => cases h
  | ok a => exact ⟨a, rfl, Except.ok.inj h⟩

/-- A table shows no other entries than those of the rows from zero on. -/
theorem covers_of_slots {t : Table} {es : List Entry}
    (h : t.sequenced.map Row.slot = es.map .entry) : Covers t es := by
  have hmem : ∀ rows shown, readRows rows = .ok shown → (∀ r ∈ rows, r ∈ t.rows) →
      ∀ e ∈ shown, e ∈ es := by
    intro rows shown hread hrows e he
    obtain ⟨r, hr, hreads⟩ := exists_reads_of_readRows hread he
    have hslot : Slot.entry e ∈ t.sequenced.map Row.slot :=
      List.mem_map.mpr ⟨r, Table.mem_sequenced.mpr ⟨hrows r hr, hreads.nonneg⟩,
        Row.slot_eq_entry_iff.mpr hreads⟩
    rw [h] at hslot
    obtain ⟨d, hd, heq⟩ := List.mem_map.mp hslot
    rwa [← Slot.entry.inj heq]
  refine ⟨?_, ?_, ?_⟩
  · intro key e hfind
    obtain ⟨shown, hshown, hhead⟩ := exists_of_map_eq_ok hfind
    refine hmem _ shown hshown (fun r hr => ?_) e (List.mem_of_mem_head? hhead)
    exact List.mem_of_find?_eq_some (Option.mem_toList.mp hr)
  · intro a b limit shown hrange
    have hread : t.range a b limit = .ok shown := hrange
    rw [Table.range] at hread
    split at hread
    · cases hread
      exact fun e he => absurd he List.not_mem_nil
    · split at hread
      · cases hread
      · exact hmem _ shown hread fun r hr => (List.mem_filter.mp (List.mem_of_mem_take hr)).1
  · intro offset limit slice hlatest
    obtain ⟨shown, hshown, rfl⟩ := exists_of_map_eq_ok hlatest
    exact hmem _ shown hshown fun r hr =>
      List.mem_reverse.mp (List.mem_of_mem_drop (List.mem_of_mem_take hr))

/-- No row from zero on lies behind the tail. -/
theorem Table.key_le_tail {t : Table} (hrowids : ∀ r ∈ t.rows, r.sequence ≤ maxRowid)
    {tail : Option ChainTail} (htail : t.tail = .ok tail) :
    (((tail.map ChainTail.sequence).getD 0).toNat : Int) ≤ maxRowid ∧
      ∀ d ∈ t.sequenced, d.key ≤ (tail.map ChainTail.sequence).getD 0 := by
  rw [Table.tail] at htail
  rcases List.eq_nil_or_concat t.rows with hrows | ⟨init, r, hrows⟩
  · rw [hrows] at htail
    obtain rfl := Except.ok.inj htail
    refine ⟨by decide, fun d hd => absurd (mem_sequenced.mp hd).1 ?_⟩
    rw [hrows]
    exact List.not_mem_nil
  · have hr : r ∈ t.rows := by simp [hrows]
    have hlast : t.rows.getLast? = some r := by simp [hrows]
    rw [hlast] at htail
    dsimp only at htail
    split at htail
    · cases htail
    · by_cases hnonneg : 0 ≤ r.sequence
      · rw [sequenceOfKey?, if_pos hnonneg] at htail
        obtain rfl := Except.ok.inj htail
        show (r.key.toNat : Int) ≤ maxRowid ∧ ∀ d ∈ t.sequenced, d.key ≤ r.key
        have hkey := toNat_key hrowids (mem_sequenced.mpr ⟨hr, hnonneg⟩)
        refine ⟨hkey ▸ hrowids r hr, fun d hd => ?_⟩
        -- the last row is the greatest
        have hle : d.sequence ≤ r.sequence := by
          have hasc := t.ascending
          have hmem := (mem_sequenced.mp hd).1
          rw [hrows, List.concat_eq_append] at hasc hmem
          rcases List.mem_append.mp hmem with hinit | hlast
          · exact Int.le_of_lt ((List.pairwise_append.mp hasc).2.2 d hinit r (by simp))
          · exact Int.le_of_eq (congrArg Row.sequence (List.mem_singleton.mp hlast))
        rw [UInt64.le_iff_toNat_le, ← Int.ofNat_le, hkey, toNat_key hrowids hd]
        exact hle
      · rw [sequenceOfKey?, if_neg hnonneg] at htail
        cases htail

namespace Verify

/-- What a report certifies of a store. -/
structure Certifies {σ : Type} [Store σ] (s : σ) (verified : List Entry) (r : Report) : Prop where
  /-- The entries are a piece of a chain that starts at zero. -/
  slice : IsSlice 0 verified
  /-- The report counts them. -/
  checked : r.entriesChecked = verified.length
  /-- There is nothing else to be shown. -/
  covers : Covers s verified

/-- A verification of a range that is found intact has read all its rows as a piece of a chain. -/
theorem slots_of_intact {t : Table} (hrowids : ∀ r ∈ t.rows, r.sequence ≤ maxRowid)
    {batch first last : UInt64} {cancelled : Bool} (hle : first ≤ last)
    (hlast : (last.toNat : Int) ≤ maxRowid)
    (hbatch : (batch.toNat : Int) ≤ maxRowid ∨ (t.rows.length : Int) ≤ maxRowid) {r : Report}
    (hrun : (verify batch first last).run (Store.respond cancelled) t = (.ok (.ok r), t))
    (hintact : r.finding = .intact) :
    ∃ es : List Entry, (within Row.key first last t.sequenced).map Row.slot = es.map .entry ∧
      IsSlice first.toNat es ∧ r.entriesChecked = es.length := by
  rcases legible_cases (within Row.key first last t.sequenced) with
    hlegible | ⟨before, d, after, fault, hwindow, hbefore, hd⟩
  · rw [Table.verify_run hrowids hlegible hle hlast hbatch cancelled] at hrun
    obtain rfl := Except.ok.inj (Except.ok.inj (congrArg Prod.fst hrun))
    have hasc := (Table.ascending_map_slot hrowids).within (a := first) (b := last)
    rw [Table.within_map_slot] at hasc
    exact (located_pass hasc).of_intact hintact
  · -- where a row is not legible, there is a violation or no report
    rw [verify_run_of_illegible hrowids hle hlast hbatch cancelled hwindow hbefore hd, aborted]
      at hrun
    have hanswer := Except.ok.inj (congrArg Prod.fst hrun)
    split at hanswer
    · cases hanswer
    · rename_i hviolated
      obtain rfl := Except.ok.inj hanswer
      exact absurd hintact hviolated

/-- A verification of everything is one of the range that ends at the last row. -/
theorem verifyAll_run_table {t : Table} (hrowids : ∀ r ∈ t.rows, r.sequence ≤ maxRowid)
    {batch : UInt64} {cancelled : Bool} {r : Report}
    (hrun : (verifyAll batch).run (Store.respond cancelled) t = (.ok (.ok r), t)) :
    ∃ last, (last.toNat : Int) ≤ maxRowid ∧ (∀ d ∈ t.sequenced, d.key ≤ last) ∧
      (verify batch 0 last).run (Store.respond cancelled) t = (.ok (.ok r), t) := by
  rw [verifyAll, Store.run_ask] at hrun
  simp only [Store.reply] at hrun
  cases htail : Store.tail t with
  | error fault =>
    rw [htail] at hrun
    cases congrArg Prod.fst hrun
  | ok tail =>
    rw [htail] at hrun
    obtain ⟨hlast, hbehind⟩ := Table.key_le_tail hrowids htail
    exact ⟨_, hlast, hbehind, hrun⟩

/-- **What an intact report on everything certifies.**  Whatever is in a store: if a verification of
everything finds it intact, then the entries that it has counted are a chain from zero on, and there
is no entry that lookups, ranges and pages can show beside them.

* A store in memory holds just these entries.
* A table has just one row for each of these sequences, and none above; rows below zero are not
  counted. -/
theorem intact_certifies (batch : UInt64) (cancelled : Bool) :
    (∀ (m : MemoryStore) (r : Report),
      (verifyAll batch).run (Store.respond cancelled) m = (.ok (.ok r), m) → r.finding = .intact →
      Certifies m m.entries r ∧ Store.count m = .ok r.entriesChecked ∧
        m.entries.map (fun e => e.sequence.toNat) = List.range r.entriesChecked) ∧
    ∀ (t : Table) (r : Report), (∀ d ∈ t.rows, d.sequence ≤ maxRowid) →
      (batch.toNat : Int) ≤ maxRowid ∨ (t.rows.length : Int) ≤ maxRowid →
      (verifyAll batch).run (Store.respond cancelled) t = (.ok (.ok r), t) → r.finding = .intact →
      (∃ verified : List Entry, t.sequenced.map Row.slot = verified.map .entry ∧
        Certifies t verified r) ∧
      t.sequenced.map Row.sequence = (List.range r.entriesChecked).map Nat.cast ∧
      Store.count t =
        .ok (r.entriesChecked + (t.rows.filter fun d => d.sequence < 0).length) := by
  constructor
  · intro m r hrun hintact
    obtain ⟨last, -, -, hverified⟩ := verifyAll_memory m batch cancelled
    rw [hverified] at hrun
    obtain rfl := Except.ok.inj (Except.ok.inj (congrArg Prod.fst hrun))
    have hslice : IsSlice 0 m.entries :=
      (exact_verifyEntries 0 last m.ascending).intact_iff.mp hintact
    rw [verifyEntries_of_isSlice 0 last hslice]
    exact ⟨⟨hslice, rfl, covers_memory m⟩, rfl, hslice.map_sequence⟩
  · intro t r hrowids hbatch hrun hintact
    obtain ⟨last, hlast, hbehind, hrun⟩ := verifyAll_run_table hrowids hrun
    obtain ⟨verified, hslots, hslice, hchecked⟩ :=
      slots_of_intact hrowids UInt64.zero_le hlast hbatch hrun hintact
    rw [within_eq_self fun d hd => ⟨UInt64.zero_le, hbehind d hd⟩] at hslots
    have hnonneg : ∀ d ∈ t.sequenced, 0 ≤ d.sequence := fun d hd => (Table.mem_sequenced.mp hd).2
    refine ⟨⟨verified, hslots, hslice, hchecked, covers_of_slots hslots⟩, ?_, ?_⟩
    · have hkeys : t.sequenced.map Row.key = verified.map Entry.sequence := by
        rw [← Row.map_sequence_slot hnonneg, hslots, List.map_map]
        rfl
      calc t.sequenced.map Row.sequence
          = (t.sequenced.map Row.key).map fun n => (n.toNat : Int) := by
            rw [List.map_map]
            exact List.map_congr_left fun d hd => (Table.toNat_key hrowids hd).symm
        _ = (verified.map fun e => e.sequence.toNat).map Nat.cast := by
            rw [hkeys, List.map_map, List.map_map]
            rfl
        _ = (List.range r.entriesChecked).map Nat.cast := by rw [hslice.map_sequence, hchecked]
    · have hlength : t.sequenced.length = r.entriesChecked := by
        rw [hchecked, ← List.length_map Row.slot, hslots, List.length_map]
      have hbelow : (t.rows.filter fun d => !decide (0 ≤ d.sequence)) =
          t.rows.filter fun d => d.sequence < 0 := by
        refine List.filter_congr fun d _ => ?_
        rw [← decide_not]
        exact decide_eq_decide.mpr Int.not_le
      show Except.ok t.rows.length = _
      rw [List.length_eq_length_filter_add fun d : Row => decide (0 ≤ d.sequence), hbelow, ← hlength]
      rfl

/-- A table with a row at zero, and one that somebody has moved below zero. -/
def belowZero : Table :=
  (Table.empty.put (Row.ofEntry (firstSealed "1"))).put
    { Row.ofEntry (.sealed 1 (.bare "second" "2") (firstSealed "1").hash) with sequence := -1 }

theorem rowids_belowZero : ∀ d ∈ belowZero.rows, d.sequence ≤ maxRowid := by
  have hrows : belowZero.rows.map Row.sequence = [-1, 0] := rfl
  intro d hd
  have hmem := List.mem_map_of_mem (f := Row.sequence) hd
  rw [hrows] at hmem
  exact (by decide : ∀ n ∈ ([-1, 0] : List Int), n ≤ maxRowid) _ hmem

/-- It is found intact. -/
theorem verifyAll_belowZero : (verifyAll defaultBatch).run (Store.respond false) belowZero =
    (.ok (.ok ⟨0, 0, 1, some 0, .intact⟩), belowZero) := by
  have hwindow : within Row.key 0 0 belowZero.sequenced = [Row.ofEntry (firstSealed "1")] := rfl
  have hlegible : ∀ d ∈ within Row.key 0 0 belowZero.sequenced, d.IsLegible := by
    rw [hwindow, List.forall_mem_singleton]
    exact (Row.isTextual_ofEntry _).isLegible
  have hpass : (Walk.start 0 0).pass ([Row.ofEntry (firstSealed "1")].map Row.slot) =
      ⟨0, 0, 1, some 0, .intact⟩ := by decide +kernel
  show (verify defaultBatch 0 0).run (Store.respond false) belowZero = _
  rw [Table.verify_run rowids_belowZero hlegible (by decide) (by decide) (.inl (by decide)), hwindow,
    hpass]

/-- So is a ledger in memory. -/
theorem verifyAll_twoSealed :
    (verifyAll defaultBatch).run (Store.respond false) (MemoryStore.ofEntries twoSealed) =
      (.ok (.ok ⟨0, 1, 2, some 1, .intact⟩), .ofEntries twoSealed) := by
  have hslice : IsSlice 0 twoSealed := (isChain_chainOf (by decide) (by decide)).toIsSlice
  have hwindow : within Entry.sequence 0 1 (MemoryStore.ofEntries twoSealed).entries =
      twoSealed := by
    rw [MemoryStore.entries_ofEntries hslice.ascending]
    rfl
  show (verify defaultBatch 0 1).run (Store.respond false) _ = _
  rw [verify_memory _ _ (by decide), hwindow, verifyEntries_of_isSlice 0 1 hslice]
  rfl

theorem intact_certifies_belowZero :
    let r : Report := ⟨0, 0, 1, some 0, .intact⟩
    let r' : Report := ⟨0, 1, 2, some 1, .intact⟩
    let m := MemoryStore.ofEntries twoSealed
    (verifyAll defaultBatch).run (Store.respond false) belowZero = (.ok (.ok r), belowZero) ∧
      (∃ verified, Certifies belowZero verified r) ∧
      belowZero.sequenced.map Row.sequence = [0] ∧ Store.count belowZero = .ok (1 + 1) ∧
      (verifyAll defaultBatch).run (Store.respond false) m = (.ok (.ok r'), m) ∧
      Certifies m m.entries r' := by
  intro r r' m
  obtain ⟨⟨verified, -, hcertifies⟩, hsequences, hcount⟩ :=
    (intact_certifies defaultBatch false).2 belowZero r rowids_belowZero (.inl (by decide))
      verifyAll_belowZero rfl
  obtain ⟨hcertifies', -, -⟩ :=
    (intact_certifies defaultBatch false).1 m r' verifyAll_twoSealed rfl
  exact ⟨verifyAll_belowZero, ⟨verified, hcertifies⟩, hsequences, hcount, verifyAll_twoSealed,
    hcertifies'⟩

/-- A row below zero goes unreported: the report is intact, and counts one of two rows. -/
theorem intact_below_zero :
    (∀ d ∈ belowZero.rows, ∀ c, (d.cells c).IsTextIn c) ∧
      belowZero.rows.map Row.sequence = [-1, 0] ∧
      ∃ r : Report, (verifyAll defaultBatch).run (Store.respond false) belowZero =
          (.ok (.ok r), belowZero) ∧ r.finding = .intact ∧
        Store.count belowZero ≠ .ok r.entriesChecked := by
  have hrows : belowZero.rows = [{ Row.ofEntry (.sealed 1 (.bare "second" "2")
      (firstSealed "1").hash) with sequence := -1 }, Row.ofEntry (firstSealed "1")] := rfl
  refine ⟨?_, rfl, _, verifyAll_belowZero, rfl, ?_⟩
  · rw [hrows, List.forall_mem_cons, List.forall_mem_singleton]
    exact ⟨(Row.isTextual_ofEntry (.sealed 1 (.bare "second" "2") (firstSealed "1").hash)).texts,
      (Row.isTextual_ofEntry _).texts⟩
  · intro hcount
    cases hcount

end Verify

end AuditChain
