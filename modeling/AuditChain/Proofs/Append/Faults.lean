import AuditChain.Append
import Mathlib.Data.List.Basic

/-!
# What failed passes come to

A tally decides how a submission goes on after a failed pass.  What it holds is no more than a count
of what the passes have failed with: the sequences that were lost, the keys that were taken and the
outages of the store.  A taken key costs nothing until there are more of them than attempts.

Faults are listed with the last one first.

## Main definitions

* `lost`, `outages`, `consumed` — what faults come to.
* `CountsLosses` — a tally has the lost inserts right, whatever other faults there are.
* `Sums`, `Counts` — it sums up all faults, and they leave something to spend.
* `Verdict.Tells` — what a verdict says about the faults.

## Main results

* `Counts.judge` — **what the verdict on a failed pass says about the faults.**
* `Counts.length_lt` — faults after which a submission goes on are fewer than its bounds come to.
-/

namespace AuditChain

/-! ### Faults -/

/-- How often a constraint was met. -/
def lost (c : UniqueConstraint) (faults : List StoreError) : Nat :=
  faults.count (.uniqueViolation c)

/-- The store is unavailable. -/
def StoreError.isOutage : StoreError → Bool
  | .unavailable _ => true
  | _ => false

/-- How often the store was unavailable. -/
def outages (faults : List StoreError) : Nat :=
  faults.countP StoreError.isOutage

/-- The attempts that faults have cost: each lost sequence is one, and so is each taken key once
there were as many of them as attempts. -/
def consumed (p : RetryPolicy) (faults : List StoreError) : Nat :=
  lost .sequence faults + (lost .dedupKey faults - p.attempts)

/-- A tally has the lost inserts right, whatever other faults there are. -/
structure CountsLosses (p : RetryPolicy) (faults : List StoreError) (t : Tally) : Prop where
  attempts : t.attempts = consumed p faults
  collisions : t.collisions = lost .dedupKey faults

/-- A tally sums up faults that are lost inserts and outages. -/
structure Sums (p : RetryPolicy) (faults : List StoreError) (t : Tally) : Prop
    extends CountsLosses p faults t where
  transient : t.transient = outages faults
  length : faults.length = lost .sequence faults + lost .dedupKey faults + outages faults

/-- A tally sums up faults after each of which the submission went on. -/
structure Counts (p : RetryPolicy) (faults : List StoreError) (t : Tally) : Prop
    extends Sums p faults t where
  /-- Not all attempts are spent, -/
  attempts_lt : consumed p faults < p.attempts
  /-- and not too many retries. -/
  outages_le : outages faults ≤ p.transientRetries

/-- What a verdict says about the faults so far, the last one first. -/
def Verdict.Tells (p : RetryPolicy) (faults : List StoreError) : Verdict → Prop
  | .retry t _ => Counts p faults t
  | .exhausted n => n = p.attempts ∧ consumed p faults = p.attempts ∧
      outages faults ≤ p.transientRetries
  | .giveUp error => consumed p faults < p.attempts ∧
      ((∃ reason, faults.head? = some (.unavailable reason) ∧
          error = .transientStorage reason ∧ outages faults = p.transientRetries + 1) ∨
        (∃ reason, error = .storage reason) ∧ outages faults ≤ p.transientRetries)

section Faults

variable {p : RetryPolicy} {faults : List StoreError} {t : Tally} {e : StoreError}

theorem attempts_pos (p : RetryPolicy) : 0 < p.attempts :=
  Nat.le_max_right ..

theorem lost_cons_of_ne {c : UniqueConstraint} (h : e ≠ .uniqueViolation c) :
    lost c (e :: faults) = lost c faults :=
  List.count_cons_of_ne h

theorem lost_cons_self (c : UniqueConstraint) (faults : List StoreError) :
    lost c (.uniqueViolation c :: faults) = lost c faults + 1 :=
  List.count_cons_self

theorem outages_cons_of_not (h : e.isOutage = false) : outages (e :: faults) = outages faults :=
  List.countP_cons_of_neg (by simp [h])

theorem outages_cons_unavailable (reason : String) (faults : List StoreError) :
    outages (.unavailable reason :: faults) = outages faults + 1 :=
  List.countP_cons_of_pos rfl

theorem outages_cons_le (e : StoreError) (faults : List StoreError) :
    outages (e :: faults) ≤ outages faults + 1 := by
  rw [outages, List.countP_cons]
  split <;> simp [outages]

theorem consumed_cons_of_other (h : ∀ c, e ≠ .uniqueViolation c) :
    consumed p (e :: faults) = consumed p faults := by
  rw [consumed, lost_cons_of_ne (h _), lost_cons_of_ne (h _), consumed]

theorem consumed_cons_le (p : RetryPolicy) (e : StoreError) (faults : List StoreError) :
    consumed p (e :: faults) ≤ consumed p faults + 1 := by
  match e with
  | .uniqueViolation .sequence =>
    rw [consumed, consumed, lost_cons_self, lost_cons_of_ne (by simp)]
    omega
  | .uniqueViolation .dedupKey =>
    rw [consumed, consumed, lost_cons_self, lost_cons_of_ne (by simp)]
    omega
  | .unavailable _ | .corrupt _ _ | .backend _ =>
    rw [consumed_cons_of_other (by simp)]
    exact Nat.le_succ _

theorem counts_nil (p : RetryPolicy) : Counts p [] {} where
  attempts := by simp [consumed, lost]
  collisions := rfl
  transient := rfl
  length := rfl
  attempts_lt := by simpa [consumed, lost] using attempts_pos p
  outages_le := Nat.zero_le _

namespace CountsLosses

/-- A fault that is no lost insert. -/
theorem other (h : CountsLosses p faults t) (he : ∀ c, e ≠ .uniqueViolation c) :
    CountsLosses p (e :: faults) t where
  attempts := h.attempts.trans (consumed_cons_of_other he).symm
  collisions := h.collisions.trans (lost_cons_of_ne (he _)).symm

/-- A lost sequence. -/
theorem sequence (h : CountsLosses p faults t) :
    CountsLosses p (.uniqueViolation .sequence :: faults)
      { t with attempts := t.attempts + 1 } where
  attempts := by
    show t.attempts + 1 = _
    rw [h.attempts, consumed, consumed, lost_cons_self, lost_cons_of_ne (by simp)]
    omega
  collisions := by
    rw [lost_cons_of_ne (by simp)]
    exact h.collisions

/-- A taken key. -/
theorem dedupKey (h : CountsLosses p faults t) :
    CountsLosses p (.uniqueViolation .dedupKey :: faults)
      (let t := { t with collisions := t.collisions + 1 }
      if t.collisions ≤ p.attempts then t else { t with attempts := t.attempts + 1 }) where
  attempts := by
    have hattempts := h.attempts
    have hcollisions := h.collisions
    rw [consumed, lost_cons_of_ne (by simp), lost_cons_self]
    rw [consumed] at hattempts
    dsimp only
    split
    · show t.attempts = _
      omega
    · show t.attempts + 1 = _
      omega
  collisions := by
    rw [lost_cons_self, ← h.collisions]
    dsimp only
    split <;> rfl

end CountsLosses

namespace Sums

theorem sequence (h : Sums p faults t) :
    Sums p (.uniqueViolation .sequence :: faults) { t with attempts := t.attempts + 1 } where
  toCountsLosses := h.toCountsLosses.sequence
  transient := h.transient
  length := by
    rw [List.length_cons, h.length, lost_cons_self, lost_cons_of_ne (by simp),
      outages_cons_of_not rfl]
    omega

theorem dedupKey (h : Sums p faults t) :
    Sums p (.uniqueViolation .dedupKey :: faults)
      (let t := { t with collisions := t.collisions + 1 }
      if t.collisions ≤ p.attempts then t else { t with attempts := t.attempts + 1 }) where
  toCountsLosses := h.toCountsLosses.dedupKey
  transient := by
    rw [outages_cons_of_not rfl, ← h.transient]
    dsimp only
    split <;> rfl
  length := by
    rw [List.length_cons, h.length, lost_cons_self, lost_cons_of_ne (by simp),
      outages_cons_of_not rfl]
    omega

theorem outage (h : Sums p faults t) (reason : String) :
    Sums p (.unavailable reason :: faults) { t with transient := t.transient + 1 } where
  attempts := (h.toCountsLosses.other (by simp)).attempts
  collisions := (h.toCountsLosses.other (by simp)).collisions
  transient := by
    rw [outages_cons_unavailable, ← h.transient]
  length := by
    rw [List.length_cons, h.length, lost_cons_of_ne (by simp), lost_cons_of_ne (by simp),
      outages_cons_unavailable]
    omega

/-- What follows from a lost insert. -/
theorem afterLoss (h : Sums p faults t) (hle : consumed p faults ≤ p.attempts)
    (houtages : outages faults ≤ p.transientRetries) (wait : Option Nat) :
    (t.afterLoss p wait).Tells p faults := by
  have hattempts := h.attempts
  unfold Tally.afterLoss
  split
  · rename_i hspent
    exact ⟨by omega, by omega, houtages⟩
  · rename_i hspent
    exact ⟨h, by omega, houtages⟩

end Sums

namespace Counts

/-- Faults after which a submission goes on are fewer than its bounds come to. -/
theorem length_lt (h : Counts p faults t) :
    faults.length < 2 * p.attempts + p.transientRetries := by
  have hlength := h.length
  have hattempts := h.attempts_lt
  have houtages := h.outages_le
  unfold consumed at hattempts
  omega

/-- **What the verdict on a failed pass says about the faults.** -/
theorem judge (h : Counts p faults t) (e : StoreError) : (t.judge p e).Tells p (e :: faults) := by
  have hlt := h.attempts_lt
  have hle := h.outages_le
  have hmore := consumed_cons_le p e faults
  match e with
  | .uniqueViolation .sequence => exact h.sequence.afterLoss (Nat.le_trans hmore hlt) hle _
  | .uniqueViolation .dedupKey => exact h.dedupKey.afterLoss (Nat.le_trans hmore hlt) hle _
  | .unavailable reason =>
    have htransient := h.transient
    have hout := outages_cons_unavailable reason faults
    have hsame : consumed p (.unavailable reason :: faults) = consumed p faults :=
      consumed_cons_of_other (by simp)
    rw [Tally.judge]
    split
    · -- the outage is one too many, and it is the last fault
      rename_i hmany
      dsimp only at hmany
      exact ⟨by omega, .inl ⟨reason, rfl, rfl, by omega⟩⟩
    · rename_i hfew
      dsimp only at hfew
      exact ⟨h.outage reason, by omega, by omega⟩
  | .corrupt _ _ | .backend _ =>
    refine ⟨?_, .inr ⟨⟨_, rfl⟩, hle⟩⟩
    rwa [consumed_cons_of_other (by simp)]

end Counts

end Faults

end AuditChain
