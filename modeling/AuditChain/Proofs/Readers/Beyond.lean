import AuditChain.Proofs.Readers.Export
import AuditChain.Proofs.Store.Table

/-!
# Sequences beyond the primary keys

Primary keys end halfway through the sequences.  Where a range ends makes no difference to a table,
for the bound is cut down to the primary keys; but a range that begins beyond them is refused, while
a store in memory has simply nothing there.  Whoever reads in batches may begin a range there
without having been asked to: if the last primary key is taken and a full batch ends with it, the
next one is to begin behind it.

Everywhere else a table whose rows can be read tells the same as a store in memory that holds the
same entries.

## Main definitions

* `Table.Shows` — the rows of a table are read as the entries of a store in memory.
* `beyond` — the sequence beyond the primary keys at which a batch is to begin, if there is one.
* `Fetched` — what comes of reading one batch.
* `Matches`, `ReadsBeyond` — a read of the table tells what it tells of the store in memory, or is
  refused; and where it is.

## Main results

* `Table.exists_shows` — every table that can be read shows a store in memory.
* `Table.Shows.range_eq` — one range.
* `Table.Shows.fetched` — one batch.
* `Table.Shows.collect_run`, `Table.Shows.walkFrom_run` — batch after batch.
* `reads_beyond` — **where a table refuses what a store in memory answers.**
-/

namespace AuditChain

/-! ### The last primary key -/

/-- The greatest sequence that is a primary key. -/
def maxKey : UInt64 := 9223372036854775807

theorem toNat_maxKey : (maxKey.toNat : Int) = maxRowid := rfl

theorem maxKey_lt_iff {n : UInt64} : maxKey < n ↔ maxRowid < (n.toNat : Int) := by
  rw [← toNat_maxKey, UInt64.lt_iff_toNat_lt, Int.ofNat_lt]

theorem le_maxKey_iff {n : UInt64} : n ≤ maxKey ↔ (n.toNat : Int) ≤ maxRowid := by
  rw [← toNat_maxKey, UInt64.le_iff_toNat_le, Int.ofNat_le]

/-- A batch size beyond the primary keys is one. -/
theorem max_one_of_lt {n : UInt64} (h : maxKey < n) : max n 1 = n :=
  if_neg fun hone => UInt64.not_lt.mpr (UInt64.le_trans hone (by decide)) h

theorem max_one_le {n : UInt64} (h : n ≤ maxKey) : max n 1 ≤ maxKey := by
  have hone : 1 ≤ maxKey.toNat := by decide
  rw [UInt64.le_iff_toNat_le] at h ⊢
  rw [Verify.toNat_max_one]
  exact Nat.max_le.mpr ⟨h, hone⟩

/-- Bounds are cut down to the last primary key. -/
theorem toNat_clamp (n : UInt64) : (Table.clamp n).toNat = (min n maxKey).toNat := by
  show _ = (if n ≤ maxKey then n else maxKey).toNat
  split
  · rename_i hle
    rw [Table.clamp_of_le (le_maxKey_iff.mp hle), Int.toNat_natCast]
  · rename_i hlt
    rw [Table.clamp_of_lt (maxKey_lt_iff.mp (UInt64.not_le.mp hlt)), ← toNat_maxKey,
      Int.toNat_natCast]

/-! ### Where a batch begins beyond the primary keys -/

/-- The sequence beyond the primary keys at which a batch is to begin when the entries from `first`
to `last` are read so many at a time: the first of them, or the one after the last primary key, if
that is taken, is not where the range ends, and ends a full batch. -/
def beyond (es : List Entry) (batch first last : UInt64) : Option UInt64 :=
  if maxKey < first then some first
  else if maxKey < last ∧ (∃ e ∈ es, e.sequence = maxKey) ∧
      batch.toNat ∣ (within Entry.sequence first last es).length then some (maxKey + 1)
  else none

section Beyond

variable {es : List Entry} {batch next last : UInt64}

theorem beyond_of_lt (h : maxKey < next) : beyond es batch next last = some next :=
  if_pos h

/-- If the range is not wide enough for another batch, or ends within the primary keys, none begins
beyond them. -/
theorem beyond_of_stop (hnext : next ≤ maxKey)
    (hstop : (within Entry.sequence next last es).length < batch.toNat ∨ last ≤ maxKey) :
    beyond es batch next last = none := by
  rw [beyond, if_neg (UInt64.not_lt.mpr hnext), if_neg]
  rintro ⟨hlast, ⟨e, he, hkey⟩, hdvd⟩
  have hmem : e ∈ within Entry.sequence next last es :=
    mem_within.mpr ⟨he, hkey ▸ hnext, hkey ▸ UInt64.le_of_lt hlast⟩
  have hle := Nat.le_of_dvd (List.length_pos_of_mem hmem) hdvd
  rcases hstop with hshort | hend
  · omega
  · exact UInt64.not_lt.mpr hend hlast

/-- A full batch that is not the last one leaves it open whether another begins beyond. -/
theorem beyond_of_full (hasc : Ascending Entry.sequence es) (hkeys : ∀ e ∈ es, e.sequence ≤ maxKey)
    (hnext : next ≤ maxKey) {init rest : List Entry} {newest : Entry}
    (hwindow : within Entry.sequence next last es = init ++ newest :: rest)
    (hfull : (init ++ [newest]).length = batch.toNat) (hlt : newest.sequence < last) :
    beyond es batch next last = beyond es batch (newest.sequence + 1) last := by
  have hrest := within_after hasc hwindow hlt
  have hmem : newest ∈ es := (mem_of_within_eq hwindow).1
  have hlength : (within Entry.sequence next last es).length = batch.toNat + rest.length := by
    rw [hwindow, ← hfull]
    simp only [List.length_append, List.length_cons, List.length_nil]
    omega
  have hsucc : (newest.sequence + 1).toNat = newest.sequence.toNat + 1 := toNat_succ_of_lt hlt
  rcases UInt64.lt_or_eq_of_le (hkeys newest hmem) with hbelow | hlast
  · -- the next batch begins within the primary keys, and the same is left to tell
    have hahead : newest.sequence + 1 ≤ maxKey := by
      rw [UInt64.lt_iff_toNat_lt] at hbelow
      rw [UInt64.le_iff_toNat_le]
      omega
    rw [beyond, beyond, if_neg (UInt64.not_lt.mpr hnext), if_neg (UInt64.not_lt.mpr hahead),
      hlength, hrest]
    simp only [Nat.dvd_add_right (Nat.dvd_refl batch.toNat)]
  · -- the batch has come to the last primary key
    have hover : maxKey < newest.sequence + 1 := by
      rw [UInt64.lt_iff_toNat_lt, hsucc, hlast]
      exact Nat.lt_succ_self _
    have hnone : rest = [] := by
      rw [← hrest]
      exact within_eq_nil fun e he => UInt64.lt_of_le_of_lt (hkeys e he) hover
    rw [beyond_of_lt hover, beyond, if_neg (UInt64.not_lt.mpr hnext), if_pos, hlast]
    refine ⟨hlast ▸ hlt, ⟨newest, hmem, hlast⟩, ?_⟩
    rw [hlength, hnone]
    exact Nat.dvd_refl _

/-- What comes of reading the entries from `next` on, up to `last` and so many at a time. -/
inductive Fetched (es : List Entry) (batch next last : UInt64) : List Entry → Prop where
  /-- There are none. -/
  | nothing (hwindow : within Entry.sequence next last es = [])
    (hnone : beyond es batch next last = none) : Fetched es batch next last []
  /-- These are all. -/
  | all {init : List Entry} {newest : Entry}
    (hwindow : within Entry.sequence next last es = init ++ [newest])
    (hstop : ¬(batch.toNat ≤ (init ++ [newest]).length ∧ next ≤ newest.sequence ∧
      newest.sequence < last))
    (hnone : beyond es batch next last = none) : Fetched es batch next last (init ++ [newest])
  /-- The batch is full, and another one is to be read. -/
  | full {init : List Entry} {newest : Entry}
    (hwindow : within Entry.sequence next last es =
      init ++ [newest] ++ within Entry.sequence (newest.sequence + 1) last es)
    (hmore : batch.toNat ≤ (init ++ [newest]).length ∧ next ≤ newest.sequence ∧
      newest.sequence < last)
    (hbeyond : beyond es batch next last = beyond es batch (newest.sequence + 1) last) :
    Fetched es batch next last (init ++ [newest])

/-- A batch is taken off the window. -/
theorem fetched_take (hasc : Ascending Entry.sequence es) (hkeys : ∀ e ∈ es, e.sequence ≤ maxKey)
    (hbatch : 0 < batch.toNat) (hnext : next ≤ maxKey) :
    Fetched es batch next last ((within Entry.sequence next last es).take batch.toNat) := by
  obtain ⟨taken, rest, hwindow, htaken, hlength, hfull⟩ :=
    exists_take batch.toNat (within Entry.sequence next last es)
  rw [htaken]
  rcases List.eq_nil_or_concat taken with rfl | ⟨init, newest, rfl⟩
  · rw [hfull hbatch, List.append_nil] at hwindow
    refine .nothing hwindow (beyond_of_stop hnext (.inl ?_))
    rw [hwindow]
    exact hbatch
  · rw [List.concat_eq_append] at *
    have hcons := hwindow
    rw [List.append_assoc, List.singleton_append] at hcons
    by_cases hmore : batch.toNat ≤ (init ++ [newest]).length ∧ next ≤ newest.sequence ∧
        newest.sequence < last
    · have hrest := within_after hasc hcons hmore.2.2
      exact .full (hrest ▸ hwindow) hmore
        (beyond_of_full hasc hkeys hnext hcons (Nat.le_antisymm hlength hmore.1) hmore.2.2)
    · have hend := rest_eq_nil_of_stop hasc hcons hfull hmore
      rw [hend, List.append_nil] at hwindow
      refine .all hwindow hmore (beyond_of_stop hnext ?_)
      rw [hwindow]
      by_cases hshort : (init ++ [newest]).length < batch.toNat
      · exact .inl hshort
      · obtain ⟨hin, hge, -⟩ := mem_of_within_eq hcons
        have hle : last ≤ newest.sequence :=
          UInt64.not_lt.mp fun hlt => hmore ⟨Nat.not_lt.mp hshort, hge, hlt⟩
        exact .inr (UInt64.le_trans hle (hkeys newest hin))

end Beyond

/-! ### A table that can be read -/

namespace Table

/-- All rows of a table can be read, and they are read as the entries that a store in memory has. -/
structure Shows (t : Table) (m : MemoryStore) : Prop where
  /-- Row by row. -/
  rows : List.Forall₂ Row.Reads t.rows m.entries
  /-- The primary keys are within their range. -/
  rowids : ∀ r ∈ t.rows, r.sequence ≤ maxRowid

end Table

/-- The sequence of the entry that a row is read as is that of the row. -/
theorem Row.Reads.sequence_eq {r : Row} {e : Entry} (h : r.Reads e) : e.sequence = r.key := by
  rw [← Row.sequence_slot h.nonneg, Row.slot_eq_entry_iff.mpr h]
  rfl

/-- **There is such a store for every table that can be read**: its entries ascend as the rows do. -/
theorem Table.exists_shows {t : Table} (hreads : ∀ r ∈ t.rows, ∃ e, r.Reads e)
    (hrowids : ∀ r ∈ t.rows, r.sequence ≤ maxRowid) : ∃ m, t.Shows m := by
  obtain ⟨es, hes⟩ := exists_forall₂_reads hreads
  have hnonneg : ∀ r ∈ t.rows, 0 ≤ r.sequence := by
    intro r hr
    obtain ⟨e, he⟩ := hreads r hr
    exact he.nonneg
  have hkeys : t.rows.map Row.key = es.map Entry.sequence := by
    refine Eq.symm ?_
    rw [← List.forall₂_eq_eq_eq, List.forall₂_map_left_iff, List.forall₂_map_right_iff]
    exact hes.flip.imp fun _ _ h => Row.Reads.sequence_eq h
  have hasc := ascending_sequenced hrowids
  rw [sequenced_eq hnonneg, Ascending, ← List.pairwise_map, hkeys, List.pairwise_map] at hasc
  exact ⟨⟨es, [], hasc⟩, hes, hrowids⟩

namespace Table.Shows

variable {t : Table} {m : MemoryStore} {first last limit : UInt64}

/-- All entries have primary keys for their sequences. -/
theorem le_maxKey (h : t.Shows m) : ∀ e ∈ m.entries, e.sequence ≤ maxKey := by
  intro e he
  obtain ⟨r, hr, hreads⟩ := exists_reads_of_readRows (readRows_eq_ok_iff.mpr h.rows) he
  have hrowid := h.rowids r hr
  rw [hreads.sequence_eq, le_maxKey_iff, Row.key, toNat_ofNat_rowid hreads.nonneg hrowid]
  exact hrowid

/-- The rows of a window are read as the entries of the window. -/
theorem within_reads (h : t.Shows m) (a b : UInt64) : List.Forall₂ Row.Reads
    (within Row.key a b t.sequenced) (within Entry.sequence a b m.entries) := by
  have hnonneg : ∀ r ∈ t.rows, 0 ≤ r.sequence := by
    intro r hr
    obtain ⟨k, hk, rfl⟩ := List.getElem_of_mem hr
    exact (h.rows.get hk (h.rows.length_eq ▸ hk)).nonneg
  rw [sequenced_eq hnonneg]
  refine List.rel_filter ?_ h.rows
  intro r e hreads
  dsimp only
  rw [hreads.sequence_eq]

/-- Nothing is stored beyond the primary keys. -/
theorem within_beyond (h : t.Shows m) (hfirst : maxKey < first) :
    within Entry.sequence first last m.entries = [] :=
  within_eq_nil fun e he => UInt64.lt_of_le_of_lt (h.le_maxKey e he) hfirst

/-! ### One range -/

/-- **A range that begins within the primary keys is read**, wherever it ends; only the number of
entries is cut down. -/
theorem range_eq (h : t.Shows m) (hle : first ≤ last) (hfirst : first ≤ maxKey) (limit : UInt64) :
    t.range first last limit = .ok (m.range first last (min limit maxKey)) := by
  rw [range_eq_readRows h.rowids hle (le_maxKey_iff.mp hfirst), toNat_clamp, readRows_eq_ok_iff]
  exact List.forall₂_take _ (h.within_reads first last)

/-- A range that begins beyond them is refused. -/
theorem range_of_lt (hle : first ≤ last) (hfirst : maxKey < first) (limit : UInt64) :
    t.range first last limit = .error (beyondRange first) := by
  rw [range, if_neg (UInt64.not_lt.mpr hle), if_pos (maxKey_lt_iff.mp hfirst)]

/-- A walk that is to go on beyond them is refused. -/
theorem walkFrom_of_lt (cancelled : Bool) (hle : first ≤ last) (hfirst : maxKey < first)
    (batch : UInt64) (w : Verify.Walk) :
    (Verify.walkFrom batch last w first).run (Store.respond cancelled) t =
      (.ok (.error (beyondRange first).toAuditError), t) := by
  have hread : Store.range t first last batch = .error (beyondRange first) :=
    range_of_lt hle hfirst batch
  rw [Verify.walkFrom, Store.run_ask]
  simp only [Store.reply, hread]
  rfl

/-! ### Batch after batch -/

section Batches

variable {batch next : UInt64} (h : t.Shows m) (cancelled : Bool)

include h

/-- One batch. -/
theorem fetched (hbatch : 0 < batch.toNat) (hmax : batch ≤ maxKey) (hle : next ≤ last)
    (hnext : next ≤ maxKey) : ∃ taken, t.range next last batch = .ok taken ∧
      Fetched m.entries batch next last taken := by
  refine ⟨_, h.range_eq hle hnext batch, ?_⟩
  have hmin : min batch maxKey = batch := if_pos hmax
  rw [hmin]
  exact fetched_take m.ascending h.le_maxKey hbatch hnext

/-- **Reading in batches gathers what lies in the range**, unless one of them is to begin beyond the
primary keys. -/
theorem collect_run (hle : next ≤ last) (before : List Entry) :
    (Query.collect next last before).run (Store.respond cancelled) t =
      (.ok (match beyond m.entries Query.exportBatch next last with
      | none => .ok (before ++ within Entry.sequence next last m.entries)
      | some sequence => .error (beyondRange sequence).toAuditError), t) := by
  -- from one batch to the next
  induction next using ahead_induction last generalizing before with
  | step next ih =>
    rw [Query.collect, Store.run_ask]
    by_cases hnext : next ≤ maxKey
    · obtain ⟨taken, hrange, hfetched⟩ : ∃ taken, t.range next last Query.exportBatch = .ok taken ∧
          Fetched m.entries Query.exportBatch next last taken :=
        h.fetched (by decide) (by decide) hle hnext
      have hread : Store.range t next last Query.exportBatch = .ok taken := hrange
      simp only [Store.reply, hread]
      cases hfetched with
      | nothing hwindow hnone =>
        rw [hnone, hwindow, List.append_nil]
        rfl
      | all hwindow hstop hnone =>
        rw [List.getLast?_concat, hnone, hwindow]
        dsimp only
        rw [dif_neg hstop]
        rfl
      | full hwindow hmore hbeyond =>
        have hahead := (succ_within hmore.2.1 hmore.2.2).1
        rw [List.getLast?_concat]
        dsimp only
        rw [dif_pos hmore, ih _ hmore.2.1 hmore.2.2 hahead, hbeyond, hwindow, List.append_assoc]
    · have hlt := UInt64.not_le.mp hnext
      have hread : Store.range t next last Query.exportBatch = .error (beyondRange next) :=
        range_of_lt hle hlt _
      simp only [Store.reply, hread, beyond_of_lt hlt]
      rfl

/-- **Walking along in batches feeds what lies in the range**, unless one of them is to begin beyond
the primary keys; a walk that ends before that does not come so far. -/
theorem walkFrom_run (hbatch : 0 < batch.toNat) (hmax : batch ≤ maxKey) (hle : next ≤ last)
    (w : Verify.Walk) : (Verify.walkFrom batch last w next).run (Store.respond cancelled) t =
      (.ok (match w.feed (within Entry.sequence next last m.entries) with
      | .error report => .ok report
      | .ok w' =>
        match beyond m.entries batch next last with
        | none => .ok (w'.report .intact)
        | some sequence => .error (beyondRange sequence).toAuditError), t) := by
  -- from one batch to the next
  induction next using ahead_induction last generalizing w with
  | step next ih =>
    by_cases hnext : next ≤ maxKey
    · rw [Verify.walkFrom, Store.run_ask]
      obtain ⟨taken, hrange, hfetched⟩ := h.fetched hbatch hmax hle hnext
      have hread : Store.range t next last batch = .ok taken := hrange
      simp only [Store.reply, hread]
      cases hfetched with
      | nothing hwindow hnone =>
        rw [hnone, hwindow]
        rfl
      | all hwindow hstop hnone =>
        rw [List.getLast?_concat, hnone, hwindow]
        cases w.feed _ with
        | error report => rfl
        | ok w' =>
          simp only [LedgerProgram.noting]
          rw [Store.run_ask, dif_neg hstop]
          rfl
      | @full init newest hwindow hmore hbeyond =>
        have hahead := (succ_within hmore.2.1 hmore.2.2).1
        rw [List.getLast?_concat, hbeyond, hwindow, w.feed_append (init ++ [newest])]
        cases w.feed (init ++ [newest]) with
        | error report => rfl
        | ok w' =>
          simp only [LedgerProgram.noting]
          rw [Store.run_ask, dif_pos hmore]
          exact ih _ hmore.2.1 hmore.2.2 hahead w'
    · have hlt := UInt64.not_le.mp hnext
      rw [walkFrom_of_lt cancelled hle hlt, beyond_of_lt hlt, h.within_beyond hlt]
      rfl

end Batches

end Table.Shows

/-! ### The two stores -/

/-- An answer, or the refusal of a sequence beyond the primary keys. -/
def unlessRefused {α : Type} (refused : Option UInt64) (a : α) : Except AuditError α :=
  match refused with
  | none => .ok a
  | some sequence => .error (Table.beyondRange sequence).toAuditError

/-- A program is answered by a store in memory, and it is answered alike by a table, unless the
table refuses a sequence. -/
def Matches {α : Type} (cancelled : Bool) (m : MemoryStore) (t : Table)
    (p : LedgerProgram (Except AuditError α)) (refused : α → Option UInt64) : Prop :=
  ∃ a, p.run (Store.respond cancelled) m = (.ok (.ok a), m) ∧
    p.run (Store.respond cancelled) t = (.ok (unlessRefused (refused a) a), t)

/-- What reads of a table have in common with those of a store in memory, and what they have not. -/
structure ReadsBeyond (cancelled : Bool) (m : MemoryStore) (t : Table) : Prop where
  /-- A range that begins within the primary keys is read alike, wherever it ends; only the number
  of entries is cut down. -/
  range : ∀ first last limit, first ≤ last → first ≤ maxKey →
    Store.range t first last limit = Store.range m first last (min limit maxKey)
  /-- A range that begins beyond them is refused, though nothing is there. -/
  refused : ∀ first last limit, first ≤ last → maxKey < first →
    Store.range t first last limit = .error (Table.beyondRange first) ∧
      Store.range m first last limit = .ok []
  /-- So is an entry beyond them. -/
  get : ∀ sequence, Matches cancelled m t (Query.get sequence) fun _ =>
    if maxKey < sequence then some sequence else none
  /-- An export is refused just if one of its batches begins beyond them; -/
  exportRange : ∀ now first last, first ≤ last →
    Matches cancelled m t (Query.exportRange now first last) fun _ =>
      beyond m.entries Query.exportBatch first last
  /-- and so is a verification, unless it has ended before.  No batch is to be cut down to fewer
  entries than there are. -/
  verify : ∀ batch first last, first ≤ last →
    (batch ≤ maxKey ∨ m.entries.length ≤ maxKey.toNat) →
      Matches cancelled m t (Verify.verify batch first last) fun r =>
        if r.finding = .intact then beyond m.entries (max batch 1) first last else none
  /-- A batch that is cut down is never full, so that it is the last one. -/
  oneBatch : ∀ batch first last, first ≤ last → first ≤ maxKey → maxKey < batch →
    (Verify.verify batch first last).run (Store.respond cancelled) t =
      (.ok (.ok (Verify.verifyEntries first last
        ((within Entry.sequence first last m.entries).take maxKey.toNat))), t)

namespace Table.Shows

variable {t : Table} {m : MemoryStore} {first last : UInt64}

theorem get_matches (h : t.Shows m) (cancelled : Bool) (sequence : UInt64) :
    Matches cancelled m t (Query.get sequence) fun _ =>
      if maxKey < sequence then some sequence else none := by
  refine ⟨(m.range sequence sequence 1).head?, rfl, ?_⟩
  have hself := UInt64.le_refl sequence
  rw [Query.get, Store.run_ask]
  by_cases hlt : maxKey < sequence
  · have hread : Store.range t sequence sequence 1 = .error (beyondRange sequence) :=
      range_of_lt hself hlt 1
    simp only [Store.reply, hread, if_pos hlt]
    rfl
  · have hread : Store.range t sequence sequence 1 =
        .ok (m.range sequence sequence (min 1 maxKey)) :=
      h.range_eq hself (UInt64.not_lt.mp hlt) 1
    simp only [Store.reply, hread, if_neg hlt]
    rfl

theorem export_matches (h : t.Shows m) (cancelled : Bool) (now : Timestamp) (hle : first ≤ last) :
    Matches cancelled m t (Query.exportRange now first last) fun _ =>
      beyond m.entries Query.exportBatch first last := by
  refine ⟨_, exportRange_memory m now cancelled hle, ?_⟩
  rw [Query.exportRange, if_neg (UInt64.not_lt.mpr hle),
    Program.run_bind (h.collect_run cancelled hle []), List.nil_append]
  cases beyond m.entries Query.exportBatch first last <;> rfl

/-- A batch that is cut down is never full. -/
theorem verify_of_lt (h : t.Shows m) (cancelled : Bool) {batch : UInt64} (hle : first ≤ last)
    (hfirst : first ≤ maxKey) (hmax : maxKey < batch) :
    (Verify.verify batch first last).run (Store.respond cancelled) t =
      (.ok (.ok (Verify.verifyEntries first last
        ((within Entry.sequence first last m.entries).take maxKey.toNat))), t) := by
  have hmin : min batch maxKey = maxKey := if_neg (UInt64.not_le.mpr hmax)
  have hread : Store.range t first last batch =
      .ok ((within Entry.sequence first last m.entries).take maxKey.toNat) := by
    have hrange := h.range_eq hle hfirst batch
    rw [hmin] at hrange
    exact hrange
  have hshort : ((within Entry.sequence first last m.entries).take maxKey.toNat).length <
      batch.toNat :=
    Nat.lt_of_le_of_lt (List.length_take_le _ _) (UInt64.lt_iff_toNat_lt.mp hmax)
  rw [Verify.verify, if_neg (UInt64.not_lt.mpr hle), max_one_of_lt hmax,
    Verify.walkFrom_run_of_short hread hshort]
  rfl

theorem verify_matches (h : t.Shows m) (cancelled : Bool) {batch : UInt64} (hle : first ≤ last)
    (hroom : batch ≤ maxKey ∨ m.entries.length ≤ maxKey.toNat) :
    Matches cancelled m t (Verify.verify batch first last) fun r =>
      if r.finding = .intact then beyond m.entries (max batch 1) first last else none := by
  refine ⟨_, Verify.verify_memory m batch hle cancelled, ?_⟩
  by_cases hmax : batch ≤ maxKey
  · rw [Verify.verify, if_neg (UInt64.not_lt.mpr hle),
      h.walkFrom_run cancelled (Verify.max_one_pos batch) (max_one_le hmax) hle,
      Verify.verifyEntries]
    cases hfeed : (Verify.Walk.start first last).feed
        (within Entry.sequence first last m.entries) with
    | error report =>
      dsimp only [Verify.Walk.conclude]
      rw [if_neg (Verify.Walk.finding_of_feed_eq_error hfeed)]
      rfl
    | ok w =>
      dsimp only [Verify.Walk.conclude]
      rw [if_pos (by rfl)]
      cases beyond m.entries (max batch 1) first last <;> rfl
  · -- such a batch holds all there is
    have hlt := UInt64.not_le.mp hmax
    have hshort : (within Entry.sequence first last m.entries).length ≤ maxKey.toNat :=
      Nat.le_trans (List.length_filter_le _ _) (hroom.resolve_left hmax)
    by_cases hfirst : first ≤ maxKey
    · have hnone : beyond m.entries (max batch 1) first last = none := by
        rw [max_one_of_lt hlt]
        exact beyond_of_stop hfirst
          (.inl (Nat.lt_of_le_of_lt hshort (UInt64.lt_iff_toNat_lt.mp hlt)))
      rw [h.verify_of_lt cancelled hle hfirst hlt, List.take_of_length_le hshort, hnone]
      dsimp only
      rw [ite_self]
      rfl
    · have hover := UInt64.not_le.mp hfirst
      rw [Verify.verify, if_neg (UInt64.not_lt.mpr hle), walkFrom_of_lt cancelled hle hover,
        h.within_beyond hover, beyond_of_lt hover]
      rfl

end Table.Shows

/-- **Where a table refuses what a store in memory answers.**  A table whose rows can be read tells
the same as a store in memory that has the same entries, wherever a range ends, except that it
refuses to begin a range beyond the primary keys: an entry or a range that is asked for there; and
the batch that an export or a verification begins there of itself, after a full batch has ended with
the last primary key and the range goes on.  The store in memory has nothing there. -/
theorem reads_beyond {t : Table} {m : MemoryStore} (h : t.Shows m) (cancelled : Bool) :
    ReadsBeyond cancelled m t where
  range := fun _ _ limit hle hfirst => h.range_eq hle hfirst limit
  refused := by
    intro first last limit hle hfirst
    refine ⟨Table.Shows.range_of_lt hle hfirst limit, ?_⟩
    show Except.ok ((within Entry.sequence first last m.entries).take limit.toNat) = _
    rw [h.within_beyond hfirst, List.take_nil]
  get := h.get_matches cancelled
  exportRange := fun now _ _ hle => h.export_matches cancelled now hle
  verify := fun _ _ _ hle hroom => h.verify_matches cancelled hle hroom
  oneBatch := fun _ _ _ hle hfirst hmax => h.verify_of_lt cancelled hle hfirst hmax

/-- An entry at the start of the sequences, and one at the last primary key. -/
def brink : List Entry :=
  [.sealed 0 (.bare "first" "1") genesisHash, .sealed maxKey (.bare "last" "2") genesisHash]

/-- They are in a table. -/
def brinkTable : Table :=
  (Table.empty.put (Row.ofEntry (.sealed 0 (.bare "first" "1") genesisHash))).put
    (Row.ofEntry (.sealed maxKey (.bare "last" "2") genesisHash))

theorem reads_beyond_brink :
    let m := MemoryStore.ofEntries brink
    brinkTable.Shows m ∧ ReadsBeyond false m brinkTable ∧
      (Query.get 9223372036854775808).run (Store.respond false) m = (.ok (.ok none), m) ∧
      (Query.get 9223372036854775808).run (Store.respond false) brinkTable =
        (.ok (.error (Table.beyondRange 9223372036854775808).toAuditError), brinkTable) ∧
      (∃ r, (Verify.verify 1 maxKey maxSequence).run (Store.respond false) m = (.ok (.ok r), m) ∧
        r.finding = .intact ∧ r.entriesChecked = 1) ∧
      (Verify.verify 1 maxKey maxSequence).run (Store.respond false) brinkTable =
        (.ok (.error (Table.beyondRange 9223372036854775808).toAuditError), brinkTable) := by
  intro m
  have hentries : m.entries = brink := rfl
  have hshows : brinkTable.Shows m := by
    refine ⟨?_, by decide⟩
    rw [hentries]
    exact .cons (Row.reads_ofEntry_iff.mpr ⟨by decide, rfl⟩)
      (.cons (Row.reads_ofEntry_iff.mpr ⟨by decide, rfl⟩) .nil)
  have hreads := reads_beyond hshows false
  obtain ⟨r, hm, ht⟩ := hreads.verify 1 maxKey maxSequence (by decide) (.inl (by decide))
  have hr : r = Verify.verifyEntries maxKey maxSequence
      [.sealed maxKey (.bare "last" "2") genesisHash] := by
    have hreport := hm.symm.trans (Verify.verify_memory m 1 (by decide) false)
    simp only [Prod.mk.injEq, Except.ok.injEq, and_true] at hreport
    rw [hreport]
    rfl
  have hintact : r.finding = .intact ∧ r.entriesChecked = 1 := by
    rw [hr]
    decide +kernel
  have hbeyond : beyond m.entries (max 1 1) maxKey maxSequence = some 9223372036854775808 := by
    decide +kernel
  dsimp only at ht
  rw [if_pos hintact.1, hbeyond] at ht
  obtain ⟨_, -, hget⟩ := hreads.get 9223372036854775808
  exact ⟨hshows, hreads, rfl, hget, ⟨r, hm, hintact⟩, ht⟩

end AuditChain
