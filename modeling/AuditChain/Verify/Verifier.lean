import AuditChain.Program
import AuditChain.Verify.Cursor

/-!
# Verification of a stored chain

A chain is read in batches and walked along.  A row that is no entry makes the read of its whole
batch fail; the rows before it are then read again on their own, and the walk ends at the row: its
hash cannot match, or its sequence is not the one expected.

## Main definitions

* `verify` — the report on a range of sequences.
* `verifyAll` — the report on all there is up to the tail.
-/

namespace AuditChain.Verify

/-- How many entries are read at a time, unless told otherwise. -/
def defaultBatch : UInt64 := 256

open LedgerProgram (noting)

/-- Ends a verification with a report. -/
def conclude (r : Report) : LedgerProgram (Except AuditError Report) :=
  noting .verified (.done (.ok r))

/-- The finding at a row that is no entry. -/
def undecodable (w : Walk) (sequence : UInt64) : Report :=
  w.report (.violated
    (if w.cursor.next = sequence then .hashMismatch sequence else .sequenceGap sequence))

/-- Ends a walk at a row that is no entry, once the rows from `next` to it have been read. -/
def stopAtRow (batch : UInt64) (w : Walk) (next sequence : UInt64) :
    LedgerProgram (Except AuditError Report) :=
  if next < sequence then
    .ask (.range next (sequence - 1) batch) fun
    | .error e => .done (.error e.toAuditError)
    | .ok entries =>
      match w.feed entries with
      | .error report => conclude report
      | .ok w => conclude (undecodable w sequence)
  else conclude (undecodable w sequence)

/-- Walks on from `next` to `last`, one batch after another.  A batch that is not full, or that
reaches the end of the range, is the last one. -/
def walkFrom (batch last : UInt64) (w : Walk) (next : UInt64) :
    LedgerProgram (Except AuditError Report) :=
  .ask (.range next last batch) fun
  | .error (.corrupt (some sequence) reason) =>
    if next ≤ sequence then noting .undecodable (stopAtRow batch w next sequence)
    else .done (.error (StoreError.corrupt (some sequence) reason).toAuditError)
  | .error e => .done (.error e.toAuditError)
  | .ok entries =>
    match entries.getLast? with
    | none => conclude (w.report .intact)
    | some newest =>
      noting .batchRead (match w.feed entries with
      | .error report => conclude report
      | .ok w =>
        if _h : batch.toNat ≤ entries.length ∧ next ≤ newest.sequence ∧ newest.sequence < last then
          walkFrom batch last w (newest.sequence + 1)
        else conclude (w.report .intact))
termination_by last.toNat - next.toNat
decreasing_by
  simp only [UInt64.le_iff_toNat_le, UInt64.lt_iff_toNat_lt] at _h
  have hb := last.toNat_lt
  have hs : (newest.sequence + 1).toNat = newest.sequence.toNat + 1 := by
    rw [UInt64.toNat_add]
    exact Nat.mod_eq_of_lt (by simp; omega)
  simp only [hs]
  omega

/-- Verifies the entries from `first` to `last`, so many at a time; at least one. -/
def verify (batch first last : UInt64) : LedgerProgram (Except AuditError Report) :=
  if last < first then .done (.error (.invalidRange first last))
  else walkFrom (max batch 1) last (Walk.start first last) first

/-- Verifies everything from the start of the chain to its tail. -/
def verifyAll (batch : UInt64) : LedgerProgram (Except AuditError Report) :=
  .ask .tail fun
  | .error e => .done (.error e.toAuditError)
  | .ok tail => verify batch 0 ((tail.map ChainTail.sequence).getD 0)

end AuditChain.Verify
