import AuditChain.Program

/-!
# Reading the chain

Pages of the newest entries, single entries, and exported slices.

## Main definitions

* `Page` — one page of results, with what there is before and after it.
* `Query.listPage` — a page of entries, the newest first.
* `Query.exportRange` — the entries of a range, read in batches.
-/

namespace AuditChain

/-- One page of results; pages are counted from one. -/
structure Page (α : Type) where
  /-- The results on this page. -/
  items : List α
  /-- The number of results on all pages. -/
  totalCount : Nat
  /-- The number of this page. -/
  pageNumber : Nat
  /-- How many results fit on a page. -/
  pageSize : Nat
  deriving DecidableEq, Repr

namespace Page

variable {α : Type}

/-- The number of pages that hold all results: the full ones, and one more for what is left over.
There is none if no result fits on a page. -/
def totalPages (p : Page α) : Nat :=
  if p.pageSize = 0 then 0
  else if 0 < p.totalCount % p.pageSize then p.totalCount / p.pageSize + 1
  else p.totalCount / p.pageSize

/-- A page comes before this one. -/
def hasPrevious (p : Page α) : Bool :=
  1 < p.pageNumber

/-- A page that is not empty comes after this one. -/
def hasNext (p : Page α) : Bool :=
  p.pageNumber < p.totalPages

end Page

namespace Query

open LedgerProgram (noting)

/-- The greatest page size, unless told otherwise. -/
def defaultMaxPageSize : UInt64 := 100

/-- How many entries an export reads at a time. -/
def exportBatch : UInt64 := 512

/-- Reads a page of entries, the newest first. -/
def listPage (maxPageSize number size : UInt64) : LedgerProgram (Except AuditError (Page Entry)) :=
  if number = 0 then .done (.error (.invalidPage "page number starts at 1"))
  else if size = 0 ∨ maxPageSize < size then
    .done (.error (.invalidPage s!"page size {size} is outside 1..={maxPageSize}"))
  else
    let offset := (number.toNat - 1) * size.toNat
    if maxSequence.toNat < offset then
      .done (.error (.invalidPage s!"page {number} of size {size} is out of range"))
    else
      .ask (.latest (UInt64.ofNat offset) size) fun
      | .error e => .done (.error e.toAuditError)
      | .ok slice =>
        noting .pageRead (.done (.ok ⟨slice.items, slice.total, number.toNat, size.toNat⟩))

/-- Reads the entry at a sequence. -/
def get (sequence : UInt64) : LedgerProgram (Except AuditError (Option Entry)) :=
  .ask (.range sequence sequence 1) fun reply =>
    .done ((withoutRetry reply).map List.head?)

/-- Reads the entry under a key. -/
def find (key : DedupKey) : LedgerProgram (Except AuditError (Option Entry)) :=
  .ask (.find key) fun reply => .done (withoutRetry reply)

/-- Reads the entries from `next` to `last` in batches and puts them after those read so far.  A
batch that is not full, or that reaches the end of the range, is the last one. -/
def collect (next last : UInt64) (before : List Entry) :
    LedgerProgram (Except AuditError (List Entry)) :=
  .ask (.range next last exportBatch) fun
  | .error e => .done (.error e.toAuditError)
  | .ok entries =>
    match entries.getLast? with
    | none => .done (.ok before)
    | some newest =>
      if _h : exportBatch.toNat ≤ entries.length ∧ next ≤ newest.sequence ∧
          newest.sequence < last then
        collect (newest.sequence + 1) last (before ++ entries)
      else .done (.ok (before ++ entries))
termination_by last.toNat - next.toNat
decreasing_by
  simp only [UInt64.le_iff_toNat_le, UInt64.lt_iff_toNat_lt] at _h
  have hb := last.toNat_lt
  have hs : (newest.sequence + 1).toNat = newest.sequence.toNat + 1 := by
    rw [UInt64.toNat_add]
    exact Nat.mod_eq_of_lt (by simp; omega)
  rw [hs]
  omega

/-- Exports the entries from `first` to `last` as a slice taken at the instant `now`. -/
def exportRange (now : Timestamp) (first last : UInt64) :
    LedgerProgram (Except AuditError Snapshot) :=
  if last < first then .done (.error (.invalidRange first last))
  else
    (collect first last []).bind fun
    | .error e => .done (.error e)
    | .ok entries => noting .exported (.done (.ok ⟨entries, now, terminalHash entries⟩))

/-- Exports the whole chain. -/
def exportAll (now : Timestamp) : LedgerProgram (Except AuditError Snapshot) :=
  exportRange now 0 maxSequence

end Query

end AuditChain
