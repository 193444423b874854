import AuditChain.Entry
import AuditChain.Error

/-!
# Rows as a store reads them

A store reads a row as an entry, or it finds that the row is none.  Of many rows it reads all, or
reports the first that is no entry.

## Main definitions

* `Slot` — a row as a store reads it.
* `readSlots` — many rows.

## Main results

* `slots_cases` — all rows are entries, or there is a first that is not.
-/

namespace AuditChain

/-- A row as a store reads it. -/
inductive Slot where
  /-- The row is an entry. -/
  | entry (e : Entry)
  /-- The row is no entry. -/
  | unreadable (sequence : UInt64) (reason : String)
  deriving DecidableEq, Repr

/-- Where a row is. -/
def Slot.sequence : Slot → UInt64
  | .entry e => e.sequence
  | .unreadable sequence _ => sequence

@[simp] theorem Slot.sequence_entry (e : Entry) : (Slot.entry e).sequence = e.sequence := rfl

@[simp] theorem Slot.sequence_unreadable (sequence : UInt64) (reason : String) :
    (Slot.unreadable sequence reason).sequence = sequence := rfl

/-- Rows are read in order, up to the first that is no entry. -/
def readSlots : List Slot → Except StoreError (List Entry)
  | [] => .ok []
  | .entry e :: slots => (readSlots slots).map (e :: ·)
  | .unreadable sequence reason :: _ => .error (.corrupt (some sequence) reason)

theorem readSlots_entries (es : List Entry) : readSlots (es.map .entry) = .ok es := by
  induction es with
  | nil => rfl
  | cons e es ih =>
    rw [List.map_cons, readSlots, ih]
    rfl

theorem readSlots_unreadable (es : List Entry) (sequence : UInt64) (reason : String)
    (slots : List Slot) :
    readSlots (es.map .entry ++ .unreadable sequence reason :: slots) =
      .error (.corrupt (some sequence) reason) := by
  induction es with
  | nil => rfl
  | cons e es ih =>
    rw [List.map_cons, List.cons_append, readSlots, ih]
    rfl

/-- Either all rows are entries, or there is a first that is not. -/
theorem slots_cases (slots : List Slot) :
    (∃ es : List Entry, slots = es.map .entry) ∨
    ∃ (es : List Entry) (sequence : UInt64) (reason : String) (rest : List Slot),
      slots = es.map .entry ++ .unreadable sequence reason :: rest := by
  induction slots with
  | nil => exact .inl ⟨[], rfl⟩
  | cons slot slots ih =>
    cases slot with
    | unreadable sequence reason => exact .inr ⟨[], sequence, reason, slots, rfl⟩
    | entry e =>
      rcases ih with ⟨es, rfl⟩ | ⟨es, sequence, reason, rest, rfl⟩
      · exact .inl ⟨e :: es, rfl⟩
      · exact .inr ⟨e :: es, sequence, reason, rest, rfl⟩

end AuditChain
