import AuditChain.Proofs.Store.Table

/-!
# Inserted and read back

An insert does not look at the instant of an entry.  The years with a sign are lost: every read that
comes to the row of such an entry fails.  All other entries come back, field by field, however the
rest of the table looks; and they come back as they were, unless their instant is in a leap second off
the minute, which the row does not tell from the second that comes next.

## Main definitions

* `Table.rangeRows`, `Table.newestRows` — the rows that a read comes to.
* `Table.Returns` — all reads of a table give an entry back, as it is shown.
* `Table.Withholds` — none does.

## Main results

* `Table.reads_of_insert` — **an entry comes back exactly if its year is plain.**
* `Table.get_eq_self_iff` — which entries come back as they were.
-/

namespace AuditChain

/-- A search that nothing met before finds what has been placed. -/
theorem find?_place {α κ : Type} [LT κ] [DecidableLT κ] [DecidableEq κ] {key : α → κ} {a : α}
    {xs : List α} {p : α → Bool} (hnew : ∀ y ∈ xs, key y ≠ key a) (hnone : xs.find? p = none)
    (ha : p a = true) : (place key a xs).find? p = some a := by
  have hunique : ∀ y ∈ place key a xs, p y = true → y = a := by
    intro y hy hpy
    rcases (mem_place_iff hnew).mp hy with rfl | hy
    · rfl
    · exact absurd hpy (List.find?_eq_none.mp hnone y hy)
  rw [find?_eq_some_iff_of_unique]
  · exact ⟨(mem_place_iff hnew).mpr (.inl rfl), ha⟩
  · intro x hx y hy hpx hpy
    rw [hunique x hx hpx, hunique y hy hpy]

/-- The row of an entry is read as the entry is shown, or not at all. -/
theorem readRows_singleton (e : Entry) : readRows [Row.ofEntry e] =
    if e.event.occurredAt.HasPlainYear then .ok [e.shown]
    else .error (RowFault.signedYear e).toStoreError := by
  have hslots := readRows_ofEntry [e]
  rw [List.map_singleton, List.map_singleton, Slot.ofEntry] at hslots
  rw [hslots]
  split <;> rfl

/-- A read of rows gives an entry back as it is shown: it succeeds unless it comes to another row that
cannot be read, and then it has the entry where the row is. -/
structure GivesBack (e : Entry) (rows : List Row) (result : Except StoreError (List Entry)) :
    Prop where
  /-- The row is no reason to fail. -/
  succeeds : (∀ r ∈ rows, r ≠ Row.ofEntry e → ∃ d, r.Reads d) → ∃ es, result = .ok es
  /-- The entry is where the row is. -/
  entry : ∀ es : List Entry, result = .ok es → ∀ i : Nat,
    rows[i]? = some (Row.ofEntry e) → es[i]? = some e.shown

/-- Rows give an entry of a plain year back. -/
theorem readRows_givesBack {e : Entry} (he : e.event.occurredAt.HasPlainYear) (rows : List Row) :
    GivesBack e rows (readRows rows) where
  succeeds := by
    intro hothers
    have hall : ∀ r ∈ rows, ∃ d, r.Reads d := by
      intro r hr
      by_cases heq : r = Row.ofEntry e
      · rw [heq]
        exact ⟨e.shown, Row.reads_ofEntry_iff.mpr ⟨he, rfl⟩⟩
      · exact hothers r hr heq
    obtain ⟨es, hes⟩ := exists_forall₂_reads hall
    exact ⟨es, readRows_eq_ok_iff.mpr hes⟩
  entry := by
    intro es hes i hi
    rw [readRows_eq_ok_iff, List.forall₂_iff_get] at hes
    obtain ⟨hlen, hget⟩ := hes
    obtain ⟨hlt, hrow⟩ := List.getElem?_eq_some_iff.mp hi
    have hreads := hget i hlt (hlen ▸ hlt)
    rw [List.get_eq_getElem, hrow, Row.reads_ofEntry_iff] at hreads
    rw [List.getElem?_eq_some_iff]
    exact ⟨hlen ▸ hlt, hreads.2⟩

/-- Rows among which there is one of a year with a sign are not read. -/
theorem readRows_ne_ok {e : Entry} (he : ¬e.event.occurredAt.HasPlainYear) {rows : List Row}
    (hmem : Row.ofEntry e ∈ rows) (es : List Entry) : readRows rows ≠ .ok es := by
  intro hes
  rw [readRows_eq_ok_iff] at hes
  induction hes with
  | nil => cases hmem
  | cons hr _ ih =>
    rcases List.mem_cons.mp hmem with heq | hmem
    · rw [← heq, Row.reads_ofEntry_iff] at hr
      exact he hr.1
    · exact ih hmem

namespace Table

variable {t t' : Table} {e : Entry}

/-! ### Reads -/

/-- The rows that the read of a range comes to. -/
def rangeRows (t : Table) (first last limit : UInt64) : List Row :=
  t.rowsBetween first.toNat (clamp last) (clamp limit)

/-- The rows that the read of the newest entries comes to. -/
def newestRows (t : Table) (offset limit : UInt64) : List Row :=
  (t.rows.reverse.drop (clamp offset).toNat).take (clamp limit).toNat

/-- A range that a row is in is read row by row. -/
theorem range_of_mem {r : Row} {first last limit : UInt64}
    (hr : r ∈ t.rangeRows first last limit) :
    t.range first last limit = readRows (t.rangeRows first last limit) := by
  obtain ⟨-, hbounds⟩ := List.mem_filter.mp (List.mem_of_mem_take hr)
  rw [Bool.and_eq_true, decide_eq_true_eq, decide_eq_true_eq, clamp, Int.le_min] at hbounds
  obtain ⟨hfirst, hlast, hmax⟩ := hbounds
  have hle : ¬last < first := by
    rw [UInt64.lt_iff_toNat_lt]
    omega
  rw [range, if_neg hle, if_neg (Int.not_lt.mpr (Int.le_trans hfirst hmax)), rangeRows]

/-- The read of a single sequence comes to its row. -/
theorem rowsBetween_self (t : Table) (key : Int) :
    t.rowsBetween key key 1 = (t.row? key).toList := by
  have hfind : (t.rows.filter fun r => key ≤ r.sequence && r.sequence ≤ key).head? =
      t.row? key := by
    rw [List.head?_filter, row?]
    congr 1
    funext r
    rw [Bool.eq_iff_iff, Bool.and_eq_true, decide_eq_true_eq, decide_eq_true_eq, beq_iff_eq]
    omega
  rw [rowsBetween, ← hfind]
  exact List.take_one

/-- The entry at a sequence is read off its row. -/
theorem get_eq (t : Table) {sequence : UInt64} (h : (sequence.toNat : Int) ≤ maxRowid) :
    Store.get t sequence = (readRows (t.row? sequence.toNat).toList).map List.head? := by
  have hone : clamp 1 = 1 := by decide
  show (t.range sequence sequence 1).map List.head? = _
  rw [range, if_neg (UInt64.lt_irrefl _), if_neg (Int.not_lt.mpr h), clamp_of_le h, hone,
    rowsBetween_self]

/-! ### What an insert leaves -/

/-- After an insert the row of the entry is there, and is the one with its sequence and with its
key. -/
theorem rows_of_insert (h : t.insert e = .ok t') : Row.ofEntry e ∈ t'.rows ∧
    t'.row? e.sequence.toNat = some (Row.ofEntry e) ∧
    t'.rowOfKey? e.event.dedupKey.text = some (Row.ofEntry e) := by
  -- both searches met nothing before, so all they can meet now is the new row
  obtain ⟨-, -, hsequence, hkey, rfl⟩ := insert_eq_ok_iff.mp h
  have hnew : ∀ r ∈ t.rows, r.sequence ≠ (Row.ofEntry e).sequence := by
    intro r hr heq
    exact List.find?_eq_none.mp hsequence r hr (beq_iff_eq.mpr heq)
  refine ⟨(mem_place_iff hnew).mpr (.inl rfl), ?_, ?_⟩
  · exact find?_place hnew hsequence (beq_self_eq_true _)
  · exact find?_place hnew hkey (beq_self_eq_true _)

/-- A table has the row of an entry, and all reads that come to it give the entry back as it is
shown. -/
structure Returns (t : Table) (e : Entry) : Prop where
  stored : Row.ofEntry e ∈ t.rows
  get : Store.get t e.sequence = .ok (some e.shown)
  find : Store.find t e.event.dedupKey = .ok (some e.shown)
  range : ∀ first last limit, Row.ofEntry e ∈ t.rangeRows first last limit →
    GivesBack e (t.rangeRows first last limit) (Store.range t first last limit)
  latest : ∀ offset limit,
    GivesBack e (t.newestRows offset limit) ((Store.latest t offset limit).map Slice.items)

/-- A table has the row of an entry, and all reads that come to it fail. -/
structure Withholds (t : Table) (e : Entry) : Prop where
  stored : Row.ofEntry e ∈ t.rows
  get : Store.get t e.sequence = .error (RowFault.signedYear e).toStoreError
  find : Store.find t e.event.dedupKey = .error (RowFault.signedYear e).toStoreError
  range : ∀ first last limit es, Row.ofEntry e ∈ t.rangeRows first last limit →
    Store.range t first last limit ≠ .ok es
  latest : ∀ offset limit slice, Row.ofEntry e ∈ t.newestRows offset limit →
    Store.latest t offset limit ≠ .ok slice

/-- **An entry comes back exactly if its year is plain**, once it has been inserted, whatever else
the table holds. -/
theorem reads_of_insert (h : t.insert e = .ok t') :
    if e.event.occurredAt.HasPlainYear then t'.Returns e else t'.Withholds e := by
  obtain ⟨hstored, hsequence, hkey⟩ := rows_of_insert h
  have hget := t'.get_eq (insert_eq_ok_iff.mp h).1
  have hfind : Store.find t' e.event.dedupKey =
      (readRows (t'.rowOfKey? e.event.dedupKey.text).toList).map List.head? := rfl
  have hlatest : ∀ offset limit, Store.latest t' offset limit =
      (readRows (t'.newestRows offset limit)).map fun items => ⟨items, t'.rows.length⟩ :=
    fun _ _ => rfl
  rw [hsequence, Option.toList_some, readRows_singleton] at hget
  rw [hkey, Option.toList_some, readRows_singleton] at hfind
  split at hget
  · rename_i he
    rw [if_pos he] at hfind ⊢
    refine ⟨hstored, hget, hfind, ?_, ?_⟩
    · intro first last limit hmem
      have hrange : Store.range t' first last limit = _ := range_of_mem hmem
      rw [hrange]
      exact readRows_givesBack he _
    · intro offset limit
      rw [hlatest]
      have hback := readRows_givesBack he (t'.newestRows offset limit)
      cases hread : readRows (t'.newestRows offset limit) <;> rwa [hread] at hback
  · rename_i he
    rw [if_neg he] at hfind ⊢
    refine ⟨hstored, hget, hfind, ?_, ?_⟩
    · intro first last limit es hmem
      have hrange : Store.range t' first last limit = _ := range_of_mem hmem
      rw [hrange]
      exact readRows_ne_ok he hmem es
    · intro offset limit slice hmem hslice
      rw [hlatest] at hslice
      cases hread : readRows (t'.newestRows offset limit) with
      | error err =>
        rw [hread] at hslice
        cases hslice
      | ok es => exact readRows_ne_ok he hmem es hread

/-- An entry comes back as it was exactly if its year is plain and its instant is not in a leap second
off the minute. -/
theorem get_eq_self_iff (h : t.insert e = .ok t') : Store.get t' e.sequence = .ok (some e) ↔
    e.event.occurredAt.HasPlainYear ∧ ¬e.event.occurredAt.OffMinute := by
  have hreads := reads_of_insert h
  by_cases hplain : e.event.occurredAt.HasPlainYear
  · rw [if_pos hplain] at hreads
    rw [hreads.get, Except.ok.injEq, Option.some.injEq, Entry.shown_eq_self_iff]
    exact ⟨fun hshown => ⟨hplain, hshown⟩, And.right⟩
  · rw [if_neg hplain] at hreads
    rw [hreads.get]
    constructor
    · intro hget
      cases hget
    · intro hboth
      exact absurd hboth.1 hplain

end Table

end AuditChain
