import AuditChain.Proofs.Shown
import AuditChain.Proofs.Store.Slots
import AuditChain.Store.Table
import Mathlib.Data.List.Forall2

/-!
# Rows written and read

A row whose cells can be taken as text is read as an entry or found to be none, and whichever it is
does not depend on the rows around it.  The row that is written for an entry is read back as the entry
is shown if its year is written without a sign; of any other year it is read as no entry.  Either way
the row belongs to what is shown of the entry alone.  And a row that is read as an entry is the one
that is written for it: nothing that says the same in other words is read.

## Main definitions

* `Row.IsTextual` — all cells of a row can be taken as text.
* `RowText.toRow` — the row whose cells are these texts.
* `Row.IsLegible` — all cells of a row are taken as text.
* `Row.slot` — how a textual row is read.
* `RowText.ofEntry`, `Slot.ofEntry` — the texts of the row that is written for an entry, and how
  that row is read.
* `Row.Reads` — a row is read as an entry.

## Main results

* `readRows_eq_readSlots` — legible rows are read one by one, up to the first that is no entry.
* `readRows_of_illegible` — one row that is not legible makes the whole read fail.
* `RowText.toEntry_ofEntry` — **a row is read back exactly if its year is plain.**
* `Row.ofEntry_eq_iff` — entries have the same row just if they are shown alike.
* `readRows_ofEntry` — the rows of entries as a store reads them.
* `readRows_eq_ok_iff` — what any rows are read as.
* `Row.IsTextual.eq_ofEntry` — **a row that is read as an entry is the one written for it.**
-/

namespace AuditChain

/-! ### Rows of texts -/

/-- The cell holds a text, or nothing where the column allows it. -/
def Cell.IsTextIn (c : Column) : Cell → Prop
  | .text _ => True
  | .null => c.isOptional = true
  | .badText _ => False
  | .blob _ => False

/-- The primary key is not below zero, and all cells can be taken as text. -/
structure Row.IsTextual (r : Row) : Prop where
  /-- The primary key is a sequence. -/
  nonneg : 0 ≤ r.sequence
  /-- The cells can be taken as text. -/
  texts : ∀ c, (r.cells c).IsTextIn c

/-- What a store says of a row that is no entry. -/
def RowFault.reason (f : RowFault) : String :=
  match f.toStoreError with
  | .corrupt _ reason => reason
  | e => e.message

/-- The sequence that a primary key is if it is not below zero. -/
def Row.key (r : Row) : UInt64 :=
  UInt64.ofNat r.sequence.toNat

/-- How texts are read. -/
def RowText.slot (x : RowText) : Slot :=
  match x.toEntry with
  | .ok e => .entry e
  | .error fault => .unreadable (UInt64.ofNat x.sequence.toNat) fault.reason

/-- How a row is read if its cells can be taken as text. -/
def Row.slot (r : Row) : Slot :=
  match r.texts with
  | .ok x => x.slot
  | .error fault => .unreadable (UInt64.ofNat r.sequence.toNat) fault.message

theorem Cell.textAt_ofOption (index : Nat) (column : String) (s : Option String) :
    (Cell.ofOption s).textAt index column = .ok s := by
  cases s <;> rfl

theorem Cell.requiredAt_text (index : Nat) (column : String) (s : String) :
    (Cell.text s).requiredAt index column = .ok s := rfl

/-- The row whose cells are these texts. -/
def RowText.toRow (x : RowText) : Row where
  sequence := x.sequence
  cells := fun
    | .dedupKey => .text x.dedupKey
    | .entityName => .text x.entityName
    | .action => .text x.action
    | .entityId => .text x.entityId
    | .oldValues => .ofOption x.oldValues
    | .newValues => .ofOption x.newValues
    | .userId => .ofOption x.userId
    | .userEmail => .ofOption x.userEmail
    | .occurredAt => .text x.occurredAt
    | .correlationId => .ofOption x.correlationId
    | .remoteIp => .ofOption x.remoteIp
    | .userAgent => .ofOption x.userAgent
    | .previousHash => .text x.previousHash
    | .hash => .text x.hash

/-- Its cells are taken as these texts. -/
theorem RowText.texts_toRow (x : RowText) : x.toRow.texts = .ok x := by
  simp only [Row.texts, toRow, Cell.textAt_ofOption, Cell.requiredAt_text, bind, Except.bind]
  rfl

/-- A textual row has the cells of some texts. -/
theorem Row.IsTextual.exists_toRow {r : Row} (h : r.IsTextual) : ∃ x : RowText, r = x.toRow := by
  have hrequired : ∀ c : Column, c.isOptional = false → ∃ s, r.cells c = .text s := by
    intro c hc
    have hcell := h.texts c
    cases hval : r.cells c with
    | text s => exact ⟨s, rfl⟩
    | null =>
      rw [hval, Cell.IsTextIn, hc] at hcell
      cases hcell
    | badText bytes => exact (hval ▸ hcell).elim
    | blob bytes => exact (hval ▸ hcell).elim
  have hoptional : ∀ c : Column, ∃ s, r.cells c = .ofOption s := by
    intro c
    have hcell := h.texts c
    cases hval : r.cells c with
    | text s => exact ⟨some s, rfl⟩
    | null => exact ⟨none, rfl⟩
    | badText bytes => exact (hval ▸ hcell).elim
    | blob bytes => exact (hval ▸ hcell).elim
  choose required hrequired using hrequired
  choose optional hoptional using hoptional
  refine ⟨⟨r.sequence, required .dedupKey rfl, required .entityName rfl, required .action rfl,
    required .entityId rfl, optional .oldValues, optional .newValues, optional .userId,
    optional .userEmail, required .occurredAt rfl, optional .correlationId, optional .remoteIp,
    optional .userAgent, required .previousHash rfl, required .hash rfl⟩, ?_⟩
  refine congrArg (Row.mk r.sequence) (funext fun c => ?_)
  cases c <;> first | exact hrequired _ rfl | exact hoptional _

/-- All cells of a row are taken as text. -/
def Row.IsLegible (r : Row) : Prop :=
  ∃ x, r.texts = .ok x

/-- The cells of a textual row are taken as text. -/
theorem Row.IsTextual.isLegible {r : Row} (h : r.IsTextual) : r.IsLegible := by
  obtain ⟨x, rfl⟩ := h.exists_toRow
  exact ⟨x, x.texts_toRow⟩

/-- Taking the cells as text leaves the primary key as it is. -/
theorem Row.sequence_texts {r : Row} {x : RowText} (h : r.texts = .ok x) :
    x.sequence = r.sequence := by
  have hkept : RowText.sequence <$> r.texts = (fun _ => r.sequence) <$> r.texts := by
    simp only [texts, map_bind, map_pure]
  rw [h] at hkept
  exact Except.ok.inj hkept

/-- What the texts of a row with a sequence are read as: an entry with this sequence, or a fault
that names it. -/
theorem RowText.toEntry_cases {x : RowText} (hx : 0 ≤ x.sequence) :
    (∃ e, x.toEntry = .ok e ∧ e.sequence = UInt64.ofNat x.sequence.toNat) ∨
    ∃ fault, x.toEntry = .error fault ∧
      fault.toStoreError = .corrupt (some (UInt64.ofNat x.sequence.toNat)) fault.reason := by
  have hkey : sequenceOfKey? x.sequence = some (UInt64.ofNat x.sequence.toNat) := if_pos hx
  rw [toEntry, hkey]
  cases haction : Action.ofName? x.action with
  | none => exact .inr ⟨_, rfl, rfl⟩
  | some action =>
    cases hinstant : Timestamp.readStrict x.occurredAt with
    | error fault => exact .inr ⟨_, rfl, rfl⟩
    | ok t =>
      by_cases hcanonical : t.canonical = x.occurredAt
      · simp only [pure_bind, if_pos hcanonical]
        exact .inl ⟨_, rfl, rfl⟩
      · simp only [pure_bind, if_neg hcanonical]
        exact .inr ⟨_, rfl, rfl⟩

theorem RowText.sequence_slot {x : RowText} (hx : 0 ≤ x.sequence) :
    x.slot.sequence = UInt64.ofNat x.sequence.toNat := by
  rcases toEntry_cases hx with ⟨e, he, hsequence⟩ | ⟨fault, hfault, -⟩
  · rw [slot, he]
    exact hsequence
  · rw [slot, hfault]
    rfl

/-- A textual row stays so when a cell is overwritten with a text, whatever the text says. -/
theorem Row.IsTextual.setCell {r : Row} (h : r.IsTextual) (c : Column) (s : String) :
    (r.setCell c (.text s)).IsTextual where
  nonneg := h.nonneg
  texts := by
    intro d
    by_cases hd : d = c
    · simp only [Row.setCell, if_pos hd]
      trivial
    · simp only [Row.setCell, if_neg hd]
      exact h.texts d

/-- A row is read where it stands. -/
theorem Row.sequence_slot {r : Row} (h : 0 ≤ r.sequence) : r.slot.sequence = r.key := by
  rw [slot, key]
  cases hx : r.texts with
  | error fault => rfl
  | ok x =>
    rw [← Row.sequence_texts hx] at h ⊢
    exact RowText.sequence_slot h

theorem Row.map_sequence_slot {rows : List Row} (h : ∀ r ∈ rows, 0 ≤ r.sequence) :
    (rows.map Row.slot).map Slot.sequence = rows.map Row.key := by
  rw [List.map_map]
  exact List.map_congr_left fun r hr => Row.sequence_slot (h r hr)

/-- Texts are read in order, up to the first that are no entry. -/
theorem readTexts_eq {xs : List RowText} (h : ∀ x ∈ xs, 0 ≤ x.sequence) :
    (xs.mapM RowText.toEntry).mapError RowFault.toStoreError = readSlots (xs.map RowText.slot) := by
  induction xs with
  | nil => rfl
  | cons x xs ih =>
    have hxs := ih fun y hy => h y (List.mem_cons_of_mem x hy)
    rw [List.mapM_cons, List.map_cons]
    rcases RowText.toEntry_cases (h x List.mem_cons_self) with ⟨e, he, -⟩ | ⟨fault, hfault, hreport⟩
    · rw [RowText.slot, he, readSlots, ← hxs]
      cases xs.mapM RowText.toEntry <;> rfl
    · rw [RowText.slot, hfault]
      exact congrArg Except.error hreport

/-- Rows whose cells can be taken as text are read in order, up to the first that is no entry. -/
theorem readRows_eq_readSlots {rows : List Row} (hnonneg : ∀ r ∈ rows, 0 ≤ r.sequence)
    (hlegible : ∀ r ∈ rows, r.IsLegible) : readRows rows = readSlots (rows.map Row.slot) := by
  obtain ⟨xs, hxs, hxs_nonneg, hslots⟩ : ∃ xs, rows.mapM Row.texts = .ok xs ∧
      (∀ x ∈ xs, 0 ≤ x.sequence) ∧ rows.map Row.slot = xs.map RowText.slot := by
    induction rows with
    | nil => exact ⟨[], rfl, by simp, rfl⟩
    | cons r rows ih =>
      rw [List.forall_mem_cons] at hnonneg hlegible
      obtain ⟨xs, hxs, hxs_nonneg, hslots⟩ := ih hnonneg.2 hlegible.2
      obtain ⟨x, hx⟩ := hlegible.1
      refine ⟨x :: xs, ?_, ?_, ?_⟩
      · rw [List.mapM_cons, hx, hxs]
        rfl
      · refine List.forall_mem_cons.mpr ⟨?_, hxs_nonneg⟩
        rw [Row.sequence_texts hx]
        exact hnonneg.1
      · rw [List.map_cons, List.map_cons, hslots, Row.slot, hx]
  rw [hslots, ← readTexts_eq hxs_nonneg, readRows, hxs]
  dsimp only
  cases xs.mapM RowText.toEntry <;> rfl

/-- A row with a cell that cannot be taken as text makes the whole read fail, whatever stands in the
other rows. -/
theorem readRows_of_illegible {before after : List Row} {r : Row} {fault : CellFault}
    (hbefore : ∀ d ∈ before, d.IsLegible) (hr : r.texts = .error fault) :
    readRows (before ++ r :: after) = .error (.backend fault.message) := by
  have htexts : (before ++ r :: after).mapM Row.texts = .error fault := by
    induction before with
    | nil =>
      rw [List.nil_append, List.mapM_cons, hr]
      rfl
    | cons d before ih =>
      rw [List.forall_mem_cons] at hbefore
      obtain ⟨x, hx⟩ := hbefore.1
      rw [List.cons_append, List.mapM_cons, hx, ih hbefore.2]
      rfl
  rw [readRows, htexts]

/-! ### The row of an entry -/

/-- The texts of the row that is written for an entry. -/
def RowText.ofEntry (e : Entry) : RowText where
  sequence := e.sequence.toNat
  dedupKey := e.event.dedupKey.text
  entityName := e.event.entityName
  action := e.event.action.name
  entityId := e.event.entityId
  oldValues := e.event.oldValues
  newValues := e.event.newValues
  userId := e.event.userId
  userEmail := e.event.userEmail
  occurredAt := e.event.occurredAt.canonical
  correlationId := e.event.correlationId
  remoteIp := e.event.remoteIp
  userAgent := e.event.userAgent
  previousHash := e.previousHash
  hash := e.hash

theorem RowText.toRow_ofEntry (e : Entry) : (ofEntry e).toRow = Row.ofEntry e := rfl

/-- All cells of the row of an entry are texts, or hold nothing where that is allowed. -/
theorem Row.texts_ofEntry (e : Entry) : (Row.ofEntry e).texts = .ok (RowText.ofEntry e) :=
  (RowText.ofEntry e).texts_toRow

theorem sequenceOfKey?_toNat (n : UInt64) : sequenceOfKey? (n.toNat : Int) = some n := by
  rw [sequenceOfKey?, if_pos (Int.natCast_nonneg _), Int.toNat_natCast, UInt64.ofNat_toNat]

/-- A primary key is the sequence that is read off it. -/
theorem toNat_ofNat_rowid {key : Int} (hnonneg : 0 ≤ key) (hrowid : key ≤ maxRowid) :
    ((UInt64.ofNat key.toNat).toNat : Int) = key := by
  have hmax : maxRowid = 9223372036854775807 := rfl
  rw [UInt64.toNat_ofNat_of_lt', Int.toNat_of_nonneg hnonneg]
  show key.toNat < 18446744073709551616
  omega

/-- Why the row of an entry cannot be read if its year has a sign. -/
def RowFault.signedYear (e : Entry) : RowFault :=
  .badInstant e.sequence e.event.occurredAt.canonical .invalid

/-- **A row is read back exactly if its year is plain**, as the entry that is shown. -/
theorem RowText.toEntry_ofEntry (e : Entry) : (RowText.ofEntry e).toEntry =
    if e.event.occurredAt.HasPlainYear then .ok e.shown else .error (.signedYear e) := by
  simp only [toEntry, ofEntry, sequenceOfKey?_toNat, Action.ofName?_name,
    Timestamp.readStrict_canonical]
  -- a plain year passes the check of its canonical text as well
  by_cases hplain : e.event.occurredAt.HasPlainYear
  · simp only [if_pos hplain, pure_bind, Timestamp.canonical_shown, ↓reduceIte]
    rfl
  · simp only [if_neg hplain]
    rfl

/-- **Texts that are read as an entry are the ones written for it.** -/
theorem RowText.eq_ofEntry {x : RowText} {e : Entry} (hrowid : x.sequence ≤ maxRowid)
    (h : x.toEntry = .ok e) : x = RowText.ofEntry e := by
  by_cases hnonneg : 0 ≤ x.sequence
  · have hkey : sequenceOfKey? x.sequence = some (UInt64.ofNat x.sequence.toNat) := if_pos hnonneg
    have hsequence := toNat_ofNat_rowid hnonneg hrowid
    rw [toEntry, hkey] at h
    cases haction : Action.ofName? x.action with
    | none =>
      rw [haction] at h
      cases h
    | some action =>
      cases hinstant : Timestamp.readStrict x.occurredAt with
      | error fault =>
        rw [haction, hinstant] at h
        cases h
      | ok t =>
        have hname := Action.name_of_ofName? haction
        -- the check of the canonical text leaves one way to write the instant
        by_cases hcanonical : t.canonical = x.occurredAt
        · simp only [haction, hinstant, pure_bind, if_pos hcanonical] at h
          obtain rfl := Except.ok.inj h
          simp only [ofEntry, hsequence, hname, hcanonical]
        · simp only [haction, hinstant, pure_bind, if_neg hcanonical] at h
          cases h
  · have hkey : sequenceOfKey? x.sequence = none := if_neg hnonneg
    rw [toEntry, hkey] at h
    cases h

@[simp] theorem RowText.ofEntry_shown (e : Entry) : ofEntry e.shown = ofEntry e := by
  simp only [ofEntry, Entry.shown, Event.shown, Timestamp.canonical_shown]

/-- The row of an entry is that of what is shown. -/
@[simp] theorem Row.ofEntry_shown (e : Entry) : ofEntry e.shown = ofEntry e := by
  rw [← RowText.toRow_ofEntry, RowText.ofEntry_shown, RowText.toRow_ofEntry]

theorem RowText.shown_eq_of_ofEntry_eq {d e : Entry} (h : ofEntry d = ofEntry e) :
    d.shown = e.shown := by
  have hsequence : d.sequence = e.sequence :=
    UInt64.toNat_inj.mp (Int.ofNat.inj (congrArg RowText.sequence h))
  -- the columns of the event are its fields
  have hfields : d.event.fields = e.event.fields := by
    have hcolumns := congrArg (fun x : RowText => [some x.dedupKey, some x.entityName,
      some x.action, some x.entityId, x.oldValues, x.newValues, x.userId, x.userEmail,
      some x.occurredAt, x.correlationId, x.remoteIp, x.userAgent]) h
    exact hcolumns
  exact Entry.shown_eq_iff.mpr ⟨hsequence, Event.fields_eq_iff.mp hfields,
    congrArg RowText.previousHash h, congrArg RowText.hash h⟩

/-- Entries have the same row just if they are shown alike. -/
theorem Row.ofEntry_eq_iff {d e : Entry} : Row.ofEntry d = Row.ofEntry e ↔ d.shown = e.shown := by
  constructor
  · intro h
    have htexts := Row.texts_ofEntry d
    rw [h, Row.texts_ofEntry] at htexts
    exact (RowText.shown_eq_of_ofEntry_eq (Except.ok.inj htexts)).symm
  · intro h
    rw [← Row.ofEntry_shown d, h, Row.ofEntry_shown]

/-- How the row that is written for an entry is read. -/
def Slot.ofEntry (e : Entry) : Slot :=
  if e.event.occurredAt.HasPlainYear then .entry e.shown
  else
    let text := e.event.occurredAt.canonical
    .unreadable e.sequence
      s!"entry {e.sequence}: bad occurred_at '{text}': {TimestampFault.invalid.message}"

/-- An entry of a plain year is read as it is shown. -/
theorem Slot.ofEntry_of_plain {e : Entry} (h : e.event.occurredAt.HasPlainYear) :
    ofEntry e = .entry e.shown :=
  if_pos h

@[simp] theorem Slot.sequence_ofEntry (e : Entry) : (Slot.ofEntry e).sequence = e.sequence := by
  unfold ofEntry
  split <;> rfl

/-- The row of an entry is textual. -/
theorem Row.isTextual_ofEntry (e : Entry) : (Row.ofEntry e).IsTextual where
  nonneg := Int.natCast_nonneg _
  texts := by
    have hoption (c : Column) (hc : c.isOptional = true) (s : Option String) :
        (Cell.ofOption s).IsTextIn c := by
      cases s with
      | none => exact hc
      | some s => trivial
    intro c
    cases c <;> first | trivial | exact hoption _ rfl _

theorem Row.slot_ofEntry (e : Entry) : (Row.ofEntry e).slot = Slot.ofEntry e := by
  have hsequence : UInt64.ofNat (RowText.ofEntry e).sequence.toNat = e.sequence := by
    show UInt64.ofNat (e.sequence.toNat : Int).toNat = e.sequence
    rw [Int.toNat_natCast, UInt64.ofNat_toNat]
  rw [slot, Row.texts_ofEntry]
  simp only [RowText.slot, RowText.toEntry_ofEntry, Slot.ofEntry, hsequence]
  by_cases hplain : e.event.occurredAt.HasPlainYear
  · simp only [if_pos hplain]
  · simp only [if_neg hplain]
    rfl

/-! ### Rows of entries -/

/-- The rows of entries as a store reads them. -/
theorem readRows_ofEntry (es : List Entry) :
    readRows (es.map Row.ofEntry) = readSlots (es.map Slot.ofEntry) := by
  have htextual : ∀ r ∈ es.map Row.ofEntry, r.IsTextual := by
    intro r hr
    obtain ⟨e, -, rfl⟩ := List.mem_map.mp hr
    exact Row.isTextual_ofEntry e
  rw [readRows_eq_readSlots (fun r hr => (htextual r hr).nonneg)
    fun r hr => (htextual r hr).isLegible, List.map_map]
  congr 2
  funext e
  exact Row.slot_ofEntry e

/-- A row is read as an entry. -/
def Row.Reads (r : Row) (e : Entry) : Prop :=
  ∃ texts, r.texts = .ok texts ∧ texts.toEntry = .ok e

theorem Row.reads_ofEntry_iff {d e : Entry} :
    (Row.ofEntry e).Reads d ↔ e.event.occurredAt.HasPlainYear ∧ d = e.shown := by
  constructor
  · rintro ⟨texts, htexts, hd⟩
    rw [Row.texts_ofEntry] at htexts
    rw [← Except.ok.inj htexts, RowText.toEntry_ofEntry] at hd
    split at hd
    · rename_i hplain
      exact ⟨hplain, (Except.ok.inj hd).symm⟩
    · cases hd
  · rintro ⟨hplain, rfl⟩
    refine ⟨_, Row.texts_ofEntry e, ?_⟩
    rw [RowText.toEntry_ofEntry, if_pos hplain]

/-- **A row that is read as an entry is the one written for it.** -/
theorem Row.IsTextual.eq_ofEntry {r : Row} {e : Entry} (h : r.IsTextual)
    (hrowid : r.sequence ≤ maxRowid) (hreads : r.Reads e) : r = Row.ofEntry e := by
  obtain ⟨x, rfl⟩ := h.exists_toRow
  obtain ⟨y, hy, hentry⟩ := hreads
  rw [RowText.texts_toRow] at hy
  obtain rfl := Except.ok.inj hy
  rw [RowText.eq_ofEntry hrowid hentry, RowText.toRow_ofEntry]

/-- A row that is read as an entry has a sequence. -/
theorem Row.Reads.nonneg {r : Row} {e : Entry} (h : r.Reads e) : 0 ≤ r.sequence := by
  obtain ⟨x, hx, he⟩ := h
  rw [← Row.sequence_texts hx]
  by_contra hneg
  rw [RowText.toEntry, sequenceOfKey?, if_neg hneg] at he
  cases he

/-- A row that is read as an entry is read as that entry among others. -/
theorem Row.slot_eq_entry_iff {r : Row} {e : Entry} : r.slot = .entry e ↔ r.Reads e := by
  rw [slot, Reads]
  cases r.texts with
  | error fault => simp
  | ok x => cases hx : x.toEntry <;> simp [RowText.slot, hx]

/-- A row with a sequence that is read as no entry is found to be none. -/
theorem Row.slot_of_not_reads {r : Row} (hnonneg : 0 ≤ r.sequence) (hnot : ∀ e, ¬r.Reads e) :
    ∃ reason, r.slot = .unreadable r.key reason := by
  rw [slot, key]
  cases hx : r.texts with
  | error fault => exact ⟨fault.message, rfl⟩
  | ok x =>
    have hsequence := Row.sequence_texts hx
    rcases RowText.toEntry_cases (hsequence ▸ hnonneg) with ⟨e, he, -⟩ | ⟨fault, hfault, -⟩
    · exact absurd ⟨x, hx, he⟩ (hnot e)
    · refine ⟨fault.reason, ?_⟩
      simp only [RowText.slot, hfault, hsequence]

/-- A function that may fail succeeds on a list just if it does on each member. -/
theorem mapM_eq_ok_iff {α β ε : Type} {f : α → Except ε β} {xs : List α} {ys : List β} :
    xs.mapM f = .ok ys ↔ List.Forall₂ (fun x y => f x = .ok y) xs ys := by
  induction xs generalizing ys with
  | nil =>
    rw [List.mapM_nil, List.forall₂_nil_left_iff]
    exact ⟨fun h => (Except.ok.inj h).symm, fun h => congrArg Except.ok h.symm⟩
  | cons x xs ih =>
    rw [List.mapM_cons]
    constructor
    · intro h
      cases hx : f x with
      | error err =>
        rw [hx] at h
        cases h
      | ok y =>
        cases hxs : xs.mapM f with
        | error err =>
          rw [hx, hxs] at h
          cases h
        | ok ys' =>
          rw [hx, hxs] at h
          rw [← Except.ok.inj h]
          exact .cons hx (ih.mp hxs)
    · intro h
      cases h with
      | cons hx hxs =>
        rw [hx, ih.mpr hxs]
        rfl

/-- Rows that are all read are read together. -/
theorem exists_forall₂_reads {rows : List Row} (h : ∀ r ∈ rows, ∃ e, r.Reads e) :
    ∃ es, List.Forall₂ Row.Reads rows es := by
  induction rows with
  | nil => exact ⟨[], .nil⟩
  | cons r rows ih =>
    obtain ⟨⟨e, he⟩, hrest⟩ := List.forall_mem_cons.mp h
    obtain ⟨es, hes⟩ := ih hrest
    exact ⟨e :: es, .cons he hes⟩

/-- The two stages of reading rows come to reading each row. -/
theorem forall₂_reads_iff {rows : List Row} {es : List Entry} :
    List.Forall₂ Row.Reads rows es ↔ ∃ texts, rows.mapM Row.texts = .ok texts ∧
      texts.mapM RowText.toEntry = .ok es := by
  simp only [mapM_eq_ok_iff]
  constructor
  · intro h
    induction h with
    | nil => exact ⟨[], .nil, .nil⟩
    | cons hr _ ih =>
      obtain ⟨text, htext, hentry⟩ := hr
      obtain ⟨texts, htexts, hentries⟩ := ih
      exact ⟨text :: texts, .cons htext htexts, .cons hentry hentries⟩
  · rintro ⟨texts, htexts, hentries⟩
    induction htexts generalizing es with
    | nil =>
      cases hentries
      exact .nil
    | cons htext _ ih =>
      cases hentries with
      | cons hentry hentries => exact .cons ⟨_, htext, hentry⟩ (ih hentries)

/-- Rows are read as entries just if each of them is. -/
theorem readRows_eq_ok_iff {rows : List Row} {es : List Entry} :
    readRows rows = .ok es ↔ List.Forall₂ Row.Reads rows es := by
  rw [forall₂_reads_iff, readRows]
  constructor
  · intro h
    split at h
    · cases h
    · rename_i texts htexts
      refine ⟨texts, htexts, ?_⟩
      split at h
      · cases h
      · rename_i hentries
        rw [hentries, Except.ok.inj h]
  · rintro ⟨texts, htexts, hentries⟩
    rw [htexts]
    simp only [hentries]

/-- Each of the entries that are read is read from a row. -/
theorem exists_reads_of_readRows {rows : List Row} {es : List Entry} (h : readRows rows = .ok es)
    {e : Entry} (he : e ∈ es) : ∃ r ∈ rows, r.Reads e := by
  have hreads := readRows_eq_ok_iff.mp h
  obtain ⟨k, hk, rfl⟩ := List.getElem_of_mem he
  have hlength := hreads.length_eq
  exact ⟨_, List.getElem_mem (hlength ▸ hk), hreads.get (hlength ▸ hk) hk⟩

end AuditChain
