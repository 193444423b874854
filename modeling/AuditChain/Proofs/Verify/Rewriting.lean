import AuditChain.Proofs.Verify.Tampering
import AuditChain.Proofs.Verify.Undecodable

/-!
# Where a rewritten row shows

Somebody has rewritten cells of a row behind the store's back.  A row that is read as an entry is
the one that is written for it, so a row with another cell is read as another entry, or as none: no
text says the same in other words.  If it is none, its hash is doubted; if it is another entry, it
shows as a replaced entry does.

## Main definitions

* `Row.Fits` — the lengths of all texts of a row can be told.
* `Row.Reseals` — a row is read as an entry that was sealed in the place of another.
* `Rewritten` — a chain is in a table, and a row of it is to be rewritten.

## Main results

* `rows_eq_of_reads` — rows that are read as entries are those written for them.
* `Rewritten.shows_of_not_reseals`, `Rewritten.shows_of_reseals` — what a single pass finds of a
  rewritten row.
* `rewriting_shows` — **every rewriting of a row shows**, but for a last row that was sealed again.
-/

namespace AuditChain

/-- Something with the key of a member takes its place. -/
theorem place_of_key_eq {α : Type} {key : α → Int} {before after : List α} {x a : α}
    (hasc : Ascending key (before ++ x :: after)) (hkey : key a = key x) :
    place key a (before ++ x :: after) = before ++ a :: after := by
  induction before with
  | nil =>
    have hlt : ¬key a < key x := by omega
    rw [List.nil_append, place, if_neg hlt, if_pos hkey, List.nil_append]
  | cons y before ih =>
    rw [List.cons_append] at hasc
    obtain ⟨hy, hrest⟩ := List.pairwise_cons.mp hasc
    have hyx : key y < key x := hy x (by simp)
    have hlt : ¬key a < key y := by omega
    have hne : ¬key a = key y := by omega
    rw [List.cons_append, place, if_neg hlt, if_neg hne, ih hrest]
    rfl

/-- The lengths of all texts in the cells of a row can be told. -/
def Row.Fits (r : Row) : Prop :=
  ∀ c s, r.cells c = .text s → (Text.utf8 s).length ≤ 4294967295

theorem Column.mem_all (c : Column) : c ∈ Column.all := by
  cases c <;> decide

/-- A cell has one text at most. -/
instance (cell : Cell) : Decidable (∀ s, cell = .text s → (Text.utf8 s).length ≤ 4294967295) :=
  match cell with
  | .text s =>
    decidable_of_iff ((Text.utf8 s).length ≤ 4294967295)
      ⟨fun h _ heq => Cell.text.inj heq ▸ h, fun h => h s rfl⟩
  | .null => .isTrue nofun
  | .badText _ => .isTrue nofun
  | .blob _ => .isTrue nofun

instance (r : Row) : Decidable r.Fits :=
  decidable_of_iff (∀ c ∈ Column.all, ∀ s, r.cells c = .text s → (Text.utf8 s).length ≤ 4294967295)
    ⟨fun h c => h c c.mem_all, fun h c _ => h c⟩

/-- The texts of an entry fit if those of its row do. -/
theorem Row.Fits.event {e : Entry} (h : (Row.ofEntry e).Fits) : e.event.Fits := by
  have hoption : ∀ (c : Column) (f : Option String),
      (Row.ofEntry e).cells c = .ofOption f → FieldFits f := by
    rintro c f hcell s rfl
    exact h c s hcell
  intro f hf
  simp only [Event.texts, List.mem_cons, List.not_mem_nil, or_false] at hf
  rcases hf with rfl | rfl | rfl | rfl | rfl | rfl | rfl | rfl | rfl | rfl
  · exact hoption .dedupKey _ rfl
  · exact hoption .entityName _ rfl
  · exact hoption .entityId _ rfl
  · exact hoption .oldValues _ rfl
  · exact hoption .newValues _ rfl
  · exact hoption .userId _ rfl
  · exact hoption .userEmail _ rfl
  · exact hoption .correlationId _ rfl
  · exact hoption .remoteIp _ rfl
  · exact hoption .userAgent _ rfl

/-- The row is read as an entry that names the same previous hash as another and carries the hash
that its fields call for. -/
def Row.Reseals (r : Row) (original : Entry) : Prop :=
  ∃ e, r.Reads e ∧ e.previousHash = original.previousHash ∧ e.hash = e.recompute

/-- Rows that are read as entries are those written for them, and are read back. -/
theorem rows_eq_of_reads {rows : List Row} {es : List Entry} (htextual : ∀ r ∈ rows, r.IsTextual)
    (hrowids : ∀ r ∈ rows, r.sequence ≤ maxRowid) (h : List.Forall₂ Row.Reads rows es) :
    rows = es.map Row.ofEntry ∧ ∀ e ∈ es, (Row.ofEntry e).Reads e := by
  induction h with
  | nil => exact ⟨rfl, fun e he => absurd he List.not_mem_nil⟩
  | cons hr _ ih =>
    rw [List.forall_mem_cons] at htextual hrowids
    obtain ⟨hrest, hreads⟩ := ih htextual.2 hrowids.2
    obtain rfl := htextual.1.eq_ofEntry hrowids.1 hr
    refine ⟨by rw [List.map_cons, ← hrest], ?_⟩
    exact List.forall_mem_cons.mpr ⟨hr, hreads⟩

namespace Verify

/-- A chain is in a table, and a row is to be put in the place of one of its rows.  The row is
textual, but need not be that of an entry. -/
structure Rewritten (t : Table) (before : List Entry) (original : Entry) (after : List Entry)
    (r : Row) : Prop where
  /-- The table is textual. -/
  table : t.IsTextual
  /-- Its rows are those of the chain. -/
  rows : t.rows = (before ++ original :: after).map Row.ofEntry
  /-- All rows are read back. -/
  reads : ∀ e ∈ before ++ original :: after, (Row.ofEntry e).Reads e
  /-- The entries are a chain. -/
  slice : IsSlice 0 (before ++ original :: after)
  /-- The new row is textual. -/
  row : r.IsTextual
  /-- It has the place of the original one. -/
  place : r.sequence = original.sequence.toNat

namespace Rewritten

variable {t : Table} {before after : List Entry} {original : Entry} {r : Row}

/-- The sequences of the chain are primary keys. -/
theorem le_maxRowid (h : Rewritten t before original after r) {e : Entry}
    (he : e ∈ before ++ original :: after) : (e.sequence.toNat : Int) ≤ maxRowid := by
  refine h.table.rowids (Row.ofEntry e) ?_
  rw [h.rows]
  exact List.mem_map_of_mem he

theorem rowid (h : Rewritten t before original after r) : r.sequence ≤ maxRowid := by
  rw [h.place]
  exact h.le_maxRowid (by simp)

/-- The new row has the sequence of the original one. -/
theorem key_eq (h : Rewritten t before original after r) : r.key = original.sequence := by
  rw [Row.key, h.place, Int.toNat_natCast, UInt64.ofNat_toNat]

/-- It is read where the original one was. -/
theorem sequence_slot (h : Rewritten t before original after r) :
    r.slot.sequence = original.sequence := by
  rw [Row.sequence_slot h.row.nonneg, h.key_eq]

/-- The new row takes the place of the original one. -/
theorem rows_put (h : Rewritten t before original after r) :
    (t.put r).rows = before.map Row.ofEntry ++ r :: after.map Row.ofEntry := by
  have hasc := t.ascending
  rw [h.rows, List.map_append, List.map_cons] at hasc
  show AuditChain.place Row.sequence r t.rows = _
  rw [h.rows, List.map_append, List.map_cons]
  exact place_of_key_eq hasc h.place

/-- How the rows of the altered table are read. -/
theorem slots (h : Rewritten t before original after r) :
    (t.put r).slots = before.map .entry ++ r.slot :: after.map .entry := by
  have hread : ∀ es : List Entry, (∀ e ∈ es, e ∈ before ++ original :: after) →
      (es.map Row.ofEntry).map Row.slot = es.map Slot.entry := by
    intro es hes
    rw [List.map_map]
    exact List.map_congr_left fun e he => Row.slot_eq_entry_iff.mpr (h.reads e (hes e he))
  rw [Table.slots, h.rows_put, List.map_append, List.map_cons, hread before (by simp +contextual),
    hread after (by simp +contextual)]

/-- All of them are in the range that the chain took. -/
theorem within_slots (h : Rewritten t before original after r) :
    within Slot.sequence 0 (UInt64.ofNat (before.length + after.length)) (t.put r).slots =
      before.map .entry ++ r.slot :: after.map .entry := by
  rw [h.slots]
  refine within_eq_self fun slot hslot => ⟨UInt64.zero_le, ?_⟩
  have hmem : slot.sequence ∈ (before ++ original :: after).map Entry.sequence := by
    have := List.mem_map_of_mem (f := Slot.sequence) hslot
    simpa [h.sequence_slot, Function.comp_def] using this
  obtain ⟨d, hd, heq⟩ := List.mem_map.mp hmem
  rw [← heq]
  exact sequence_le_last h.slice hd

/-- A verification of the whole table is a single pass over its rows. -/
theorem run (h : Rewritten t before original after r) {batch : UInt64}
    (hbatch : (batch.toNat : Int) ≤ maxRowid ∨ (t.rows.length : Int) ≤ maxRowid)
    (cancelled : Bool) :
    (verify batch 0 (UInt64.ofNat (before.length + after.length))).run (Store.respond cancelled)
      (t.put r) = (.ok (.ok ((Walk.start 0 (UInt64.ofNat (before.length + after.length))).pass
        (before.map .entry ++ r.slot :: after.map .entry))), t.put r) := by
  have hlast : ((UInt64.ofNat (before.length + after.length)).toNat : Int) ≤ maxRowid := by
    have hlength : before.length + after.length < (before ++ original :: after).length := by simp
    have hsequence := h.slice.sequence _ hlength
    rw [Nat.zero_add] at hsequence
    rw [← hsequence, UInt64.ofNat_toNat]
    exact h.le_maxRowid (List.getElem_mem hlength)
  have hcount : (t.put r).rows.length = t.rows.length := by
    rw [h.rows_put, h.rows]
    simp
  have htable := h.table.put h.row h.rowid
  rw [← hcount] at hbatch
  rw [htable.verify_run UInt64.zero_le hlast hbatch cancelled, h.within_slots]

/-! ### What is found -/

/-- A row that is read as no entry is taken for an altered one. -/
theorem unreadable (h : Rewritten t before original after r) (hnot : ∀ e, ¬r.Reads e)
    (last : UInt64) : (Walk.start 0 last).pass (before.map .entry ++ r.slot :: after.map .entry) =
      ⟨0, last, before.length, before.getLast?.map Entry.sequence,
        .violated (.hashMismatch original.sequence)⟩ := by
  obtain ⟨reason, hslot⟩ := Row.slot_of_not_reads h.row.nonneg hnot
  have hpassed : IsSlice (0 : UInt64).toNat before := h.slice.of_append
  have hbelow : ∀ d ∈ before, d.sequence < original.sequence := h.slice.ascending.split.1
  have hplace : original.sequence.toNat = (0 : UInt64).toNat + before.length := by
    rw [sequence_eq_length h.slice]
    exact (Nat.zero_add _).symm
  rw [hslot, h.key_eq, Walk.pass_entries_append, Walk.feed_start last hpassed]
  show undecodable (Walk.after 0 last before) original.sequence = _
  rw [undecodable_after last hpassed hbelow reason (after.map .entry), stopAt, if_pos hplace]

variable {e : Entry}

/-- A row that is read as an entry is passed as that entry. -/
theorem readable (he : r.Reads e) (last : UInt64) :
    (Walk.start 0 last).pass (before.map .entry ++ r.slot :: after.map .entry) =
      verifyEntries 0 last (before ++ e :: after) := by
  have hslots : before.map Slot.entry ++ r.slot :: after.map .entry =
      (before ++ e :: after).map .entry := by
    rw [Row.slot_eq_entry_iff.mpr he, List.map_append, List.map_cons]
  rw [hslots, Walk.pass_entries]
  rfl

/-- An entry that is read from the row has the sequence of the original one. -/
theorem sequence_of_reads (h : Rewritten t before original after r) (he : r.Reads e) :
    e.sequence = original.sequence := by
  have hsequence := h.sequence_slot
  rwa [Row.slot_eq_entry_iff.mpr he] at hsequence

/-- A row that was not sealed again shows where it is. -/
theorem shows_of_not_reseals (h : Rewritten t before original after r)
    (hnot : ¬r.Reseals original) (last : UInt64) : ∃ v,
      ((Walk.start 0 last).pass (before.map .entry ++ r.slot :: after.map .entry)).finding =
        .violated v ∧ v.sequence = original.sequence := by
  by_cases hreads : ∃ e, r.Reads e
  · obtain ⟨e, he⟩ := hreads
    have hsequence := h.sequence_of_reads he
    have hstops : ¬Continues 0 before e := fun hcontinues =>
      hnot ⟨e, he, (continues_replaced_iff h.slice hsequence).mp hcontinues⟩
    rw [readable he, verifyEntries_of_offence last h.slice hsequence hstops,
      offence_replaced h.slice hsequence]
    refine ⟨_, rfl, ?_⟩
    rw [← hsequence]
    split <;> rfl
  · rw [h.unreadable (not_exists.mp hreads) last]
    exact ⟨_, rfl, rfl⟩

/-- A row that was sealed again shows at the next row, if there is one: it is not the row that was
there, so it carries another hash. -/
theorem shows_of_reseals (h : Rewritten t before original after r)
    (hne : r ≠ Row.ofEntry original) (hfits : r.Fits) (hfits' : (Row.ofEntry original).Fits)
    (hsafe : ∀ e, r.Reads e → ¬Collides e.hashInput original.hashInput)
    (hreseals : r.Reseals original) (last : UInt64) :
    ((Walk.start 0 last).pass (before.map .entry ++ r.slot :: after.map .entry)).finding =
      match after.head? with
      | some d => .violated (.brokenLink d.sequence)
      | none => .intact := by
  obtain ⟨e, he, hsealed⟩ := hreseals
  obtain rfl := h.row.eq_ofEntry h.rowid he
  have hsequence := h.sequence_of_reads he
  have hnew : e.shown ≠ original.shown := fun heq => hne (Row.ofEntry_eq_iff.mpr heq)
  have hhash : e.hash ≠ original.hash := by
    refine hash_ne_of_replaced hnew hfits.event hfits'.event (hsafe e he) ?_ hsealed.2
    exact h.slice.hash original (by simp)
  have hpasses := (continues_replaced_iff h.slice hsequence).mpr hsealed
  rw [readable he]
  exact congrArg Report.finding (verifyEntries_of_resealed last h.slice hsequence hpasses hhash)

end Rewritten

/-- The sequence after one of a chain is the next number. -/
theorem sequence_next {before after : List Entry} {original d : Entry}
    (h : IsSlice 0 (before ++ original :: d :: after)) : d.sequence = original.sequence + 1 := by
  have hlt : original.sequence < d.sequence := h.ascending.split.2 d List.mem_cons_self
  have happend : before ++ original :: d :: after = before ++ [original] ++ d :: after := by simp
  have hd := sequence_eq_length (happend ▸ h)
  rw [← UInt64.toNat_inj, toNat_succ_of_lt hlt, hd, sequence_eq_length h, List.length_append,
    List.length_singleton]

/-- A table whose rows are read as a chain, taken apart at one of its rows. -/
theorem rewritten_of_reads {t : Table} {C : List Entry} (ht : t.IsTextual)
    (hreads : List.Forall₂ Row.Reads t.rows C) (hC : IsSlice 0 C) {old r : Row} {original : Entry}
    (hmem : old ∈ t.rows) (hold : old.Reads original) (hr : r.IsTextual)
    (hplace : r.sequence = old.sequence) : ∃ before after, C = before ++ original :: after ∧
      old = Row.ofEntry original ∧ Rewritten t before original after r := by
  obtain ⟨hrows, hback⟩ := rows_eq_of_reads ht.rows ht.rowids hreads
  rw [hrows] at hmem
  obtain ⟨e, he, rfl⟩ := List.mem_map.mp hmem
  -- what is read is shown as itself
  obtain ⟨-, horiginal⟩ := Row.reads_ofEntry_iff.mp hold
  obtain ⟨-, hshown⟩ := Row.reads_ofEntry_iff.mp (hback e he)
  obtain rfl : original = e := horiginal.trans hshown.symm
  obtain ⟨before, after, rfl⟩ := List.append_of_mem he
  exact ⟨before, after, rfl, rfl, ht, hrows, hback, hC, hr, hplace⟩

/-- **Every rewriting of a row shows.**  A row of texts that is read as an entry is the one that is
written for it.  So let the rows of a table be read as a chain, and let a row be rewritten so that
at least one cell changes.  A verification of the whole table, in batches of any size, reports a
violation at the row, unless the row is now read as an entry that was sealed in the place of the
original one, without a collision of their hash inputs; then it reports one at the next row, and
only if there is none does it find the table intact. -/
theorem rewriting_shows :
    (∀ (r : Row) (e : Entry), r.IsTextual → r.sequence ≤ maxRowid → r.Reads e →
      r = Row.ofEntry e) ∧
    ∀ {t : Table} {C : List Entry}, t.IsTextual → List.Forall₂ Row.Reads t.rows C → IsSlice 0 C →
    ∀ {old r : Row} {original : Entry}, old ∈ t.rows → old.Reads original →
      r.IsTextual → r.sequence = old.sequence → (∃ c, r.cells c ≠ old.cells c) →
      r.Fits → old.Fits → (∀ e, r.Reads e → ¬Collides e.hashInput original.hashInput) →
    ∀ (batch : UInt64), (batch.toNat : Int) ≤ maxRowid ∨ (t.rows.length : Int) ≤ maxRowid →
    ∀ (cancelled : Bool), ∃ report,
      (verify batch 0 (UInt64.ofNat (C.length - 1))).run (Store.respond cancelled) (t.put r) =
        (.ok (.ok report), t.put r) ∧
      (¬r.Reseals original →
        ∃ v, report.finding = .violated v ∧ v.sequence = original.sequence) ∧
      (r.Reseals original → original.sequence.toNat + 1 < C.length →
        report.finding = .violated (.brokenLink (original.sequence + 1))) ∧
      (report.finding = .intact ↔
        r.Reseals original ∧ original.sequence.toNat + 1 = C.length) := by
  refine ⟨fun r e hr hrowid hreads => hr.eq_ofEntry hrowid hreads, ?_⟩
  intro t C ht hreads hC old r original hmem hold hr hplace hchanged hfits hfits' hsafe batch hbatch
    cancelled
  obtain ⟨before, after, rfl, rfl, h⟩ := rewritten_of_reads ht hreads hC hmem hold hr hplace
  have hne : r ≠ Row.ofEntry original := by
    rintro rfl
    obtain ⟨c, hc⟩ := hchanged
    exact hc rfl
  have hlast : (before ++ original :: after).length - 1 = before.length + after.length := by simp
  rw [hlast]
  refine ⟨_, h.run hbatch cancelled, ?_⟩
  set last := UInt64.ofNat (before.length + after.length)
  have hkept := fun hnot => h.shows_of_not_reseals hnot last
  have hsealed := fun hreseals => h.shows_of_reseals hne hfits hfits' hsafe hreseals last
  rw [sequence_eq_length hC]
  cases after with
  | nil =>
    refine ⟨hkept, fun _ hlt => absurd hlt (by simp), fun hintact => ⟨?_, by simp⟩, ?_⟩
    · by_contra hnot
      obtain ⟨v, hv, -⟩ := hkept hnot
      rw [hv] at hintact
      cases hintact
    · exact fun hreseals => hsealed hreseals.1
  | cons d after =>
    refine ⟨hkept, fun hreseals _ => ?_, fun hintact => ?_, fun hend => absurd hend.2 (by simp)⟩
    · rw [hsealed hreseals, ← sequence_next hC]
      rfl
    · by_cases hreseals : r.Reseals original
      · rw [hsealed hreseals] at hintact
        cases hintact
      · obtain ⟨v, hv, -⟩ := hkept hreseals
        rw [hv] at hintact
        cases hintact

/-- The second entry of a ledger, or what somebody makes of it who can seal. -/
def secondSealed (entityId : String) : Entry :=
  .sealed 1 (.bare "second" entityId) (firstSealed "1").hash

/-- The table that two inserts leave. -/
def twoRows : Table :=
  (Table.empty.put (Row.ofEntry (firstSealed "1"))).put (Row.ofEntry (secondSealed "2"))

/-- Its first row, with the instant in other words. -/
def respelled : Row :=
  (Row.ofEntry (firstSealed "1")).setCell .occurredAt (.text "2000-01-01T12:00:00+00:00")

theorem rewriting_shows_twoRows :
    Row.ofEntry (firstSealed "1") ∈ twoRows.rows ∧ Row.ofEntry (secondSealed "2") ∈ twoRows.rows ∧
    (∃ report, (verify 1 0 1).run (Store.respond false) (twoRows.put respelled) =
        (.ok (.ok report), twoRows.put respelled) ∧
      ∃ v, report.finding = .violated v ∧ v.sequence = 0) ∧
    let resealed := Row.ofEntry (secondSealed "two")
    resealed.Reseals (secondSealed "2") ∧
    ∃ report, (verify 1 0 1).run (Store.respond false) (twoRows.put resealed) =
        (.ok (.ok report), twoRows.put resealed) ∧ report.finding = .intact := by
  have hC : IsSlice 0 twoSealed := (isChain_chainOf (by decide) (by decide)).toIsSlice
  have hone : ((1 : UInt64).toNat : Int) ≤ maxRowid := by decide
  have hrows : twoRows.rows = [Row.ofEntry (firstSealed "1"), Row.ofEntry (secondSealed "2")] := rfl
  have htextual : twoRows.IsTextual :=
    (Table.isTextual_empty.put (Row.isTextual_ofEntry _) (by decide)).put
      (Row.isTextual_ofEntry _) (by decide)
  have hreads (e : Entry) (he : e.event.occurredAt = .noon) : (Row.ofEntry e).Reads e := by
    have hplain : Timestamp.noon.HasPlainYear := by decide
    have hoff : ¬Timestamp.noon.OffMinute := by decide
    rw [← he] at hplain hoff
    exact Row.reads_ofEntry_iff.mpr ⟨hplain, (Entry.shown_of_not hoff).symm⟩
  have hall : List.Forall₂ Row.Reads twoRows.rows twoSealed := by
    rw [hrows]
    exact .cons (hreads _ rfl) (.cons (hreads _ rfl) .nil)
  have hmem : Row.ofEntry (firstSealed "1") ∈ twoRows.rows := by simp [hrows]
  have hmem' : Row.ofEntry (secondSealed "2") ∈ twoRows.rows := by simp [hrows]
  refine ⟨hmem, hmem', ?_, ?_⟩
  · have hnot : ∀ e, ¬respelled.Reads e := by
      rintro e ⟨x, hx, hentry⟩
      obtain rfl := Except.ok.inj hx
      have hfault : RowText.toEntry { RowText.ofEntry (firstSealed "1") with
          occurredAt := "2000-01-01T12:00:00+00:00" } =
          .error (.nonCanonical 0 "2000-01-01T12:00:00+00:00") := by decide +kernel
      cases hfault.symm.trans hentry
    have hfits : respelled.Fits := by decide +kernel
    have hfits' : (Row.ofEntry (firstSealed "1")).Fits := by decide +kernel
    obtain ⟨report, hrun, hfound, -⟩ := rewriting_shows.2 htextual hall hC hmem (hreads _ rfl)
      ((Row.isTextual_ofEntry _).setCell _ _) rfl ⟨.occurredAt, by decide +kernel⟩ hfits hfits'
      (fun e he => absurd he (hnot e)) 1 (.inl hone) false
    exact ⟨report, hrun, hfound fun ⟨e, he, _⟩ => hnot e he⟩
  · have hreseals : (Row.ofEntry (secondSealed "two")).Reseals (secondSealed "2") :=
      ⟨_, hreads _ rfl, rfl, rfl⟩
    have hsafe : ∀ e, (Row.ofEntry (secondSealed "two")).Reads e →
        ¬Collides e.hashInput (secondSealed "2").hashInput := by
      intro e he hcollides
      obtain ⟨-, rfl⟩ := Row.reads_ofEntry_iff.mp he
      rw [Entry.hashInput_shown] at hcollides
      have hdigest : Sha256.digest (secondSealed "two").hashInput ≠
          Sha256.digest (secondSealed "2").hashInput := by decide +kernel
      exact hdigest hcollides.2
    have hfits : (Row.ofEntry (secondSealed "two")).Fits := by decide +kernel
    have hfits' : (Row.ofEntry (secondSealed "2")).Fits := by decide +kernel
    have hchanged : (Row.ofEntry (secondSealed "two")).cells .entityId ≠
        (Row.ofEntry (secondSealed "2")).cells .entityId := by decide
    obtain ⟨report, hrun, -, -, hintact⟩ := rewriting_shows.2 htextual hall hC hmem'
      (hreads _ rfl) (Row.isTextual_ofEntry (secondSealed "two")) rfl ⟨_, hchanged⟩ hfits hfits'
      hsafe 1 (.inl hone) false
    exact ⟨hreseals, report, hrun, hintact.mpr ⟨hreseals, rfl⟩⟩

end Verify

end AuditChain
