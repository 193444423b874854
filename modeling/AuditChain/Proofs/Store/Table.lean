import AuditChain.Proofs.Chain
import AuditChain.Proofs.Store.Rows
import AuditChain.Proofs.Verify.SinglePass

/-!
# What a table holds

A range of a table is read row by row, whatever somebody has made of the rows, as long as their
cells are texts.  A table that inserts have filled has the rows of entries, one row each.  An entry
whose row cannot be read back is held all the same: its key and its sequence are taken, the tail is
told, and only reads that come to the row fail.  Any other entry is read back as it is shown.

## Main definitions

* `Table.IsTextual`, `Table.slots` — all rows of a table are textual, and how they are read.
* `Table.Holds` — the rows of a table are those of these entries.

## Main results

* `Table.insert_eq_ok_iff` — when an insert succeeds and what it leaves.
* `Table.Holds.insert` — an insert adds an entry.
* `Table.IsTextual.verify_run` — a verification is a single pass over the rows as they are read.
* `Table.Holds.find_eq`, `Table.Holds.tail_eq`, `Table.Holds.range_eq` — what is read of a table.
-/

namespace AuditChain

theorem Row.sequence_lt_iff {d e : Entry} :
    (Row.ofEntry d).sequence < (Row.ofEntry e).sequence ↔ d.sequence < e.sequence := by
  rw [UInt64.lt_iff_toNat_lt]
  exact Int.ofNat_lt

theorem Row.sequence_eq_iff {d e : Entry} :
    (Row.ofEntry d).sequence = (Row.ofEntry e).sequence ↔ d.sequence = e.sequence := by
  rw [← UInt64.toNat_inj]
  exact Int.ofNat_inj

/-- The rows of a window are the window of the rows. -/
theorem within_ofEntry (a b : UInt64) (es : List Entry) :
    within Slot.sequence a b (es.map Slot.ofEntry) =
      (within Entry.sequence a b es).map Slot.ofEntry := by
  rw [within, List.filter_map, within]
  congr 1
  refine List.filter_congr ?_
  intro e _
  simp only [Function.comp, Slot.sequence_ofEntry]

/-- The row of an entry is placed among the rows of entries as the entry is. -/
theorem place_ofEntry (e : Entry) (es : List Entry) :
    place Row.sequence (Row.ofEntry e) (es.map Row.ofEntry) =
      (place Entry.sequence e es).map Row.ofEntry := by
  induction es with
  | nil => rfl
  | cons d es ih =>
    simp only [List.map_cons, place, Row.sequence_lt_iff, Row.sequence_eq_iff, ih]
    split
    · rfl
    · split <;> rfl

namespace Table

variable {t t' : Table} {e : Entry} {es : List Entry}

/-! ### Inserts -/

/-- An insert succeeds exactly where nothing keeps writers out and the sequence and the key are
free; the entry that is inserted is not looked at otherwise. -/
theorem insert_eq_ok_iff : t.insert e = .ok t' ↔
    (e.sequence.toNat : Int) ≤ maxRowid ∧ (t.refusal = none ∧ t.frozen = none) ∧
      t.row? e.sequence.toNat = none ∧ t.rowOfKey? e.event.dedupKey.text = none ∧
      t' = t.put (Row.ofEntry e) := by
  unfold insert
  constructor
  · intro h
    split at h
    · cases h
    · rename_i hrange
      split at h
      · cases h
      · cases h
      · rename_i hrefusal hfrozen
        split at h
        · cases h
        · rename_i hsequence
          split at h
          · cases h
          · rename_i hkey
            rw [Bool.not_eq_true, Option.isSome_eq_false_iff, Option.isNone_iff_eq_none]
              at hsequence hkey
            exact ⟨Int.not_lt.mp hrange, ⟨hrefusal, hfrozen⟩, hsequence, hkey,
              (Except.ok.inj h).symm⟩
  · rintro ⟨hrange, ⟨hrefusal, hfrozen⟩, hsequence, hkey, rfl⟩
    rw [if_neg (Int.not_lt.mpr hrange), hrefusal, hfrozen, hsequence, hkey]
    rfl

/-! ### Bounds -/

theorem clamp_of_le {n : UInt64} (h : (n.toNat : Int) ≤ maxRowid) : clamp n = n.toNat :=
  Int.min_eq_left h

theorem clamp_of_lt {n : UInt64} (h : maxRowid < (n.toNat : Int)) : clamp n = maxRowid :=
  Int.min_eq_right (Int.le_of_lt h)

/-- A bound that is cut down bounds the same primary keys. -/
theorem le_clamp_iff {n : UInt64} {key : Int} (h : key ≤ maxRowid) :
    key ≤ clamp n ↔ key ≤ n.toNat := by
  rw [clamp, Int.le_min]
  exact and_iff_left h

/-! ### Rows in a range -/

/-- The rows whose primary keys are not below zero. -/
def sequenced (t : Table) : List Row :=
  t.rows.filter fun r => 0 ≤ r.sequence

theorem mem_sequenced {r : Row} : r ∈ t.sequenced ↔ r ∈ t.rows ∧ 0 ≤ r.sequence := by
  rw [sequenced, List.mem_filter, decide_eq_true_eq]

theorem sequenced_eq (hnonneg : ∀ r ∈ t.rows, 0 ≤ r.sequence) : t.sequenced = t.rows := by
  rw [sequenced, List.filter_eq_self]
  exact fun r hr => decide_eq_true (hnonneg r hr)

/-- What the rows of a window are read as is what is read of them in the window. -/
theorem within_map_slot (a b : UInt64) : within Slot.sequence a b (t.sequenced.map Row.slot) =
    (within Row.key a b t.sequenced).map Row.slot := by
  rw [within, List.filter_map, within]
  congr 1
  refine List.filter_congr fun r hr => ?_
  rw [Function.comp, Row.sequence_slot (mem_sequenced.mp hr).2]

section Rowids

variable (hrowids : ∀ r ∈ t.rows, r.sequence ≤ maxRowid)

include hrowids

/-- The sequence of a row is its primary key. -/
theorem toNat_key {r : Row} (hr : r ∈ t.sequenced) : (r.key.toNat : Int) = r.sequence := by
  obtain ⟨hmem, hnonneg⟩ := mem_sequenced.mp hr
  exact toNat_ofNat_rowid hnonneg (hrowids r hmem)

theorem ascending_sequenced : Ascending Row.key t.sequenced := by
  have hasc : t.sequenced.Pairwise fun r d => r.sequence < d.sequence := t.ascending.filter _
  refine hasc.imp_of_mem fun hr hd hlt => ?_
  rw [← toNat_key hrowids hr, ← toNat_key hrowids hd] at hlt
  exact UInt64.lt_iff_toNat_lt.mpr (Int.ofNat_lt.mp hlt)

/-- A range within the primary keys is read from the rows there, cut down to the limit. -/
theorem range_eq_readRows {a b : UInt64} (hab : a ≤ b) (ha : (a.toNat : Int) ≤ maxRowid)
    (limit : UInt64) : t.range a b limit =
      readRows ((within Row.key a b t.sequenced).take (clamp limit).toNat) := by
  have hfilter : (t.rows.filter fun r => (a.toNat : Int) ≤ r.sequence && r.sequence ≤ clamp b) =
      within Row.key a b t.sequenced := by
    rw [within, sequenced, List.filter_filter]
    refine List.filter_congr fun r hr => ?_
    rw [Bool.eq_iff_iff]
    simp only [Bool.and_eq_true, decide_eq_true_eq, le_clamp_iff (hrowids r hr),
      UInt64.le_iff_toNat_le]
    by_cases hnonneg : 0 ≤ r.sequence
    · have hkey := toNat_key hrowids (mem_sequenced.mpr ⟨hr, hnonneg⟩)
      omega
    · omega
  rw [Table.range, if_neg (UInt64.not_lt.mpr hab), if_neg (Int.not_lt.mpr ha), rowsBetween, hfilter]

/-- How a verification reads the table, as long as no batch is cut down below its size. -/
theorem range_eq_of_batch {batch a b : UInt64} (hab : a ≤ b) (hb : (b.toNat : Int) ≤ maxRowid)
    (hbatch : (batch.toNat : Int) ≤ maxRowid ∨ (t.rows.length : Int) ≤ maxRowid) :
    t.range a b batch = readRows ((within Row.key a b t.sequenced).take batch.toNat) := by
  have ha : (a.toNat : Int) ≤ maxRowid := by
    rw [UInt64.le_iff_toNat_le] at hab
    omega
  rw [range_eq_readRows hrowids hab ha]
  have hlen : (within Row.key a b t.sequenced).length ≤ t.rows.length :=
    Nat.le_trans (List.length_filter_le _ _) (List.length_filter_le _ _)
  by_cases hle : (batch.toNat : Int) ≤ maxRowid
  · rw [clamp_of_le hle, Int.toNat_natCast]
  · -- the limit is cut down, but not below the number of rows
    have hgt := Int.not_le.mp hle
    have hfew := hbatch.resolve_left hle
    rw [clamp_of_lt hgt, List.take_of_length_le, List.take_of_length_le]
    · omega
    · omega

theorem ascending_map_slot : Ascending Slot.sequence (t.sequenced.map Row.slot) := by
  rw [Ascending, List.pairwise_map]
  refine (ascending_sequenced hrowids).imp_of_mem fun hr hd hlt => ?_
  rw [Row.sequence_slot (mem_sequenced.mp hr).2, Row.sequence_slot (mem_sequenced.mp hd).2]
  exact hlt

/-- A verification reads legible rows one by one. -/
theorem readsAs {batch first last : UInt64}
    (hlegible : ∀ r ∈ within Row.key first last t.sequenced, r.IsLegible)
    (hlast : (last.toNat : Int) ≤ maxRowid)
    (hbatch : (batch.toNat : Int) ≤ maxRowid ∨ (t.rows.length : Int) ≤ maxRowid) :
    Verify.ReadsAs t (t.sequenced.map Row.slot) batch first last := by
  intro a b ha hab hb
  have hrowid : (b.toNat : Int) ≤ maxRowid := by
    rw [UInt64.le_iff_toNat_le] at hb
    omega
  have hmem : ∀ r ∈ (within Row.key a b t.sequenced).take batch.toNat,
      r ∈ t.sequenced ∧ a ≤ r.key ∧ r.key ≤ b :=
    fun r hr => mem_within.mp (List.mem_of_mem_take hr)
  show t.range a b batch = _
  rw [range_eq_of_batch hrowids hab hrowid hbatch, within_map_slot, ← List.map_take]
  refine readRows_eq_readSlots (fun r hr => (mem_sequenced.mp (hmem r hr).1).2) fun r hr => ?_
  obtain ⟨hr, har, hrb⟩ := hmem r hr
  exact hlegible r (mem_within.mpr ⟨hr, UInt64.le_trans ha har, UInt64.le_trans hrb hb⟩)

/-- **A verification of legible rows is a single pass over them**, as long as no batch is cut down
below its size. -/
theorem verify_run {batch first last : UInt64}
    (hlegible : ∀ r ∈ within Row.key first last t.sequenced, r.IsLegible)
    (hle : first ≤ last) (hlast : (last.toNat : Int) ≤ maxRowid)
    (hbatch : (batch.toNat : Int) ≤ maxRowid ∨ (t.rows.length : Int) ≤ maxRowid)
    (cancelled : Bool) : (Verify.verify batch first last).run (Store.respond cancelled) t =
      (.ok (.ok ((Verify.Walk.start first last).pass
        ((within Row.key first last t.sequenced).map Row.slot))), t) := by
  have hmax : ((max batch 1).toNat : Int) ≤ maxRowid ∨ (t.rows.length : Int) ≤ maxRowid := by
    refine hbatch.imp_left fun hle => ?_
    have hone : (1 : Int) ≤ maxRowid := by decide
    rw [Verify.toNat_max_one]
    omega
  rw [Verify.verify_run (ascending_map_slot hrowids) (readsAs hrowids hlegible hlast hmax) cancelled
    hle, within_map_slot]

end Rowids

/-! ### Textual rows -/

/-- All rows of the table are textual, and their primary keys are within the range of such keys. -/
structure IsTextual (t : Table) : Prop where
  /-- The rows are textual. -/
  rows : ∀ r ∈ t.rows, r.IsTextual
  /-- The primary keys are within their range. -/
  rowids : ∀ r ∈ t.rows, r.sequence ≤ maxRowid

/-- How the rows of the table are read. -/
def slots (t : Table) : List Slot :=
  t.rows.map Row.slot

theorem isTextual_empty : empty.IsTextual where
  rows := fun _ hr => absurd hr List.not_mem_nil
  rowids := fun _ hr => absurd hr List.not_mem_nil

namespace IsTextual

/-- A textual row can be put in. -/
theorem put (h : t.IsTextual) {r : Row} (hr : r.IsTextual) (hrowid : r.sequence ≤ maxRowid) :
    (t.put r).IsTextual where
  rows := by
    intro d hd
    rcases mem_of_mem_place hd with rfl | hd
    · exact hr
    · exact h.rows d hd
  rowids := by
    intro d hd
    rcases mem_of_mem_place hd with rfl | hd
    · exact hrowid
    · exact h.rowids d hd

/-- All sequences of the table are primary keys. -/
theorem sequenced_eq (h : t.IsTextual) : t.sequenced = t.rows :=
  Table.sequenced_eq fun r hr => (h.rows r hr).nonneg

theorem isLegible (h : t.IsTextual) : ∀ r ∈ t.sequenced, r.IsLegible :=
  fun r hr => (h.rows r (mem_sequenced.mp hr).1).isLegible

theorem within_slots (h : t.IsTextual) (a b : UInt64) :
    within Slot.sequence a b t.slots = (within Row.key a b t.sequenced).map Row.slot := by
  rw [slots, ← h.sequenced_eq, within_map_slot]

theorem ascending_slots (h : t.IsTextual) : Ascending Slot.sequence t.slots := by
  rw [slots, ← h.sequenced_eq]
  exact ascending_map_slot h.rowids

/-- A range within the primary keys is read as the rows there, cut down to the limit. -/
theorem range_eq (h : t.IsTextual) {a b : UInt64} (hab : a ≤ b) (ha : (a.toNat : Int) ≤ maxRowid)
    (limit : UInt64) : t.range a b limit =
      readSlots ((within Slot.sequence a b t.slots).take (clamp limit).toNat) := by
  rw [range_eq_readRows h.rowids hab ha, h.within_slots, ← List.map_take]
  exact readRows_eq_readSlots
    (fun r hr => (mem_sequenced.mp (mem_within.mp (List.mem_of_mem_take hr)).1).2)
    fun r hr => h.isLegible r (mem_within.mp (List.mem_of_mem_take hr)).1

/-- **A verification of a table is a single pass over its rows as they are read**, as long as no
batch is cut down below its size. -/
theorem verify_run (h : t.IsTextual) {batch first last : UInt64} (hle : first ≤ last)
    (hlast : (last.toNat : Int) ≤ maxRowid)
    (hbatch : (batch.toNat : Int) ≤ maxRowid ∨ (t.rows.length : Int) ≤ maxRowid)
    (cancelled : Bool) : (Verify.verify batch first last).run (Store.respond cancelled) t =
      (.ok (.ok ((Verify.Walk.start first last).pass (within Slot.sequence first last t.slots))),
        t) := by
  rw [Table.verify_run h.rowids (fun r hr => h.isLegible r (mem_within.mp hr).1) hle hlast hbatch
    cancelled, h.within_slots]

end IsTextual

/-! ### Contents -/

/-- The rows of the table are those of these entries. -/
structure Holds (t : Table) (es : List Entry) : Prop where
  /-- There is a row for each entry. -/
  rows : t.rows = es.map Row.ofEntry
  /-- No two entries share a key. -/
  keys : es.Pairwise fun a b => a.event.dedupKey ≠ b.event.dedupKey
  /-- The sequences are primary keys. -/
  rowids : ∀ e ∈ es, (e.sequence.toNat : Int) ≤ maxRowid

theorem holds_empty : empty.Holds [] where
  rows := rfl
  keys := .nil
  rowids := fun _ he => absurd he List.not_mem_nil

namespace Holds

theorem ascending (h : t.Holds es) : Ascending Entry.sequence es := by
  have hasc := t.ascending
  rw [h.rows, Ascending, List.pairwise_map] at hasc
  exact hasc.imp Row.sequence_lt_iff.mp

/-- The rows tell no more of the entries than what is shown of them. -/
theorem shown (h : t.Holds es) : t.Holds (es.map Entry.shown) where
  rows := by
    rw [h.rows, List.map_map]
    exact List.map_congr_left fun e _ => (Row.ofEntry_shown e).symm
  keys := List.pairwise_map.mpr h.keys
  rowids := by
    intro d hd
    obtain ⟨e, he, rfl⟩ := List.mem_map.mp hd
    exact h.rowids e he

/-- A row is found by its key. -/
theorem rowOfKey?_eq (h : t.Holds es) (key : DedupKey) : t.rowOfKey? key.text =
    (es.find? fun e => e.event.dedupKey = key).map Row.ofEntry := by
  rw [rowOfKey?, h.rows, List.find?_map]
  congr 2
  funext e
  rw [Bool.eq_iff_iff, decide_eq_true_eq]
  show (Cell.text e.event.dedupKey.text == Cell.text key.text) = true ↔ _
  rw [beq_iff_eq, Cell.text.injEq]
  exact ⟨congrArg DedupKey.mk, congrArg DedupKey.text⟩

/-- An entry is found by its key. -/
theorem find?_eq_some_iff (h : t.Holds es) {key : DedupKey} :
    (es.find? fun e => e.event.dedupKey = key) = some e ↔ e ∈ es ∧ e.event.dedupKey = key := by
  rw [find?_eq_some_iff_of_unique, decide_eq_true_eq]
  intro d hd e he hdkey hekey
  rw [decide_eq_true_eq] at hdkey hekey
  exact eq_of_pairwise_ne h.keys hd he (hdkey.trans hekey.symm)

/-- An insert that succeeds has found its entry free, and adds it. -/
theorem insert (h : t.Holds es) (hins : t.insert e = .ok t') :
    IsFree e es ∧ t'.Holds (place Entry.sequence e es) := by
  obtain ⟨hrange, -, hsequence, hkey, rfl⟩ := insert_eq_ok_iff.mp hins
  have hfree : IsFree e es := by
    intro d hd
    constructor
    · intro heq
      rw [row?, h.rows, List.find?_eq_none] at hsequence
      refine hsequence (Row.ofEntry d) (List.mem_map_of_mem hd) ?_
      rw [beq_iff_eq]
      exact Row.sequence_eq_iff.mpr heq
    · intro heq
      have hfound := h.find?_eq_some_iff.mpr ⟨hd, heq⟩
      rw [h.rowOfKey?_eq, hfound] at hkey
      cases hkey
  refine ⟨hfree, ?_, ?_, ?_⟩
  · show place Row.sequence (Row.ofEntry e) t.rows = _
    rw [h.rows, place_ofEntry]
  · refine (place_perm fun d hd => (hfree d hd).1).symm.pairwise ?_ fun hne => hne.symm
    exact List.pairwise_cons.mpr ⟨fun d hd => (hfree d hd).2.symm, h.keys⟩
  · intro d hd
    rcases mem_of_mem_place hd with rfl | hd
    · exact hrange
    · exact h.rowids d hd

/-! ### Reads -/

/-- A lookup reads the row of the key. -/
theorem find_eq (h : t.Holds es) (key : DedupKey) : t.find key =
    (readSlots ((es.find? fun e => e.event.dedupKey = key).toList.map Slot.ofEntry)).map
      List.head? := by
  rw [Table.find, h.rowOfKey?_eq, ← readRows_ofEntry]
  cases es.find? fun e => e.event.dedupKey = key <;> rfl

/-- The tail is that of the last entry, whether its row can be read back or not. -/
theorem tail_eq (h : t.Holds es) : t.tail = .ok (es.getLast?.map Entry.tail) := by
  rw [Table.tail, h.rows, List.getLast?_map]
  cases es.getLast? with
  | none => rfl
  | some e =>
    simp only [Option.map_some, Row.ofEntry, Cell.requiredAt_text, sequenceOfKey?_toNat]
    rfl

/-- The rows of entries are textual. -/
theorem isTextual (h : t.Holds es) : t.IsTextual where
  rows := by
    rw [h.rows]
    intro r hr
    obtain ⟨e, -, rfl⟩ := List.mem_map.mp hr
    exact Row.isTextual_ofEntry e
  rowids := by
    rw [h.rows]
    intro r hr
    obtain ⟨e, he, rfl⟩ := List.mem_map.mp hr
    exact h.rowids e he

theorem slots_eq (h : t.Holds es) : t.slots = es.map Slot.ofEntry := by
  rw [slots, h.rows, List.map_map]
  congr 1
  funext e
  exact Row.slot_ofEntry e

/-- A range within the primary keys is read as the rows of the entries there. -/
theorem range_eq (h : t.Holds es) {a b : UInt64} (hab : a ≤ b) (ha : (a.toNat : Int) ≤ maxRowid)
    (limit : UInt64) : t.range a b limit =
      readSlots (((within Entry.sequence a b es).map Slot.ofEntry).take (clamp limit).toNat) := by
  rw [h.isTextual.range_eq hab ha, h.slots_eq, within_ofEntry]

end Holds

end Table

end AuditChain
