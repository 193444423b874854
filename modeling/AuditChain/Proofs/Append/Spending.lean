import AuditChain.Proofs.Append.Faults
import AuditChain.Proofs.Append.Protocol
import AuditChain.Proofs.Chain

/-!
# What a writer spends

Read off the tree of a submission alone, as what it may ask is: the tally that decides on retries is
a reckoning of the inserts that the writer has lost.  So a writer gives up only for a reason that
its exchanges show: the caller has cancelled, a call has failed otherwise than by a constraint, or
the losses have come up to the budget.  A taken key costs nothing until there are more of them than
attempts.  And a writer whose insert is done asks nothing more of the store.

## Main definitions

* `Exchange.fault?`, `losses` — how a call failed, and how often a constraint was met.
* `spent` — the attempts that the losses come to.
* `Excused` — the caller has cancelled, or a call has failed otherwise.
* `EndsSpent` — why a submission may end as it does.

## Main results

* `Reckons.judge` — the verdict on a failed pass keeps the reckoning.
* `submit_spends` — **a submission fails only if it is excused or has spent its budget.**
-/

namespace AuditChain

open LedgerProgram (noting)

/-- The store error that a request was answered with. -/
def Exchange.fault? : Exchange ledger → Option StoreError
  | ⟨.find _, .error e⟩ => some e
  | ⟨.tail, .error e⟩ => some e
  | ⟨.insert _, .error e⟩ => some e
  | ⟨.range _ _ _, .error e⟩ => some e
  | ⟨.latest _ _, .error e⟩ => some e
  | ⟨.count, .error e⟩ => some e
  | _ => none

/-- The caller was told that it has cancelled. -/
def Exchange.IsStop (x : Exchange ledger) : Prop :=
  x = ⟨.cancelled, true⟩ ∨ ∃ wait, x = ⟨.pause wait, true⟩

/-- How often a call met a constraint. -/
def losses (c : UniqueConstraint) (l : Transcript ledger) : Nat :=
  l.countP fun x => x.fault? = some (.uniqueViolation c)

/-- The attempts that the losses come to: each lost sequence is one, and so is each taken key once
there were as many of them as attempts. -/
def spent (p : RetryPolicy) (l : Transcript ledger) : Nat :=
  losses .sequence l + (losses .dedupKey l - p.attempts)

/-- The caller has cancelled, or a call has failed otherwise than by a constraint. -/
def Excused (l : Transcript ledger) : Prop :=
  ∃ x ∈ l, x.IsStop ∨ ∃ e, x.fault? = some e ∧ ∀ c, e ≠ .uniqueViolation c

/-- The chain was found to end at the greatest sequence. -/
def Overflown (l : Transcript ledger) : Prop :=
  ∃ t : ChainTail, ⟨.tail, .ok (some t)⟩ ∈ l ∧ t.sequence = maxSequence

/-- What a writer may still ask: once an insert is done, it only takes notes. -/
def MaySpend (l : Transcript ledger) (r : Request) : Prop :=
  NoneDone l ∨ ∃ n, r = .note n

/-- Why a submission may end as it does. -/
def EndsSpent (p : RetryPolicy) (l : Transcript ledger) :
    Except Crash (Except AuditError Outcome) → Prop
  | .ok (.ok _) => True
  | .ok (.error _) => Excused l ∨ p.attempts ≤ spent p l
  | .error _ => Overflown l

/-! ### The reckoning -/

/-- The tally is the reckoning of the losses. -/
structure Reckons (p : RetryPolicy) (l : Transcript ledger) (t : Tally) : Prop where
  attempts : t.attempts = spent p l
  collisions : t.collisions = losses .dedupKey l

/-- A verdict agrees with the reckoning: a writer gives up only if it is excused, is exhausted only
if its attempts are spent, and retries with a tally that reckons. -/
def Verdict.Agrees (p : RetryPolicy) (l : Transcript ledger) : Verdict → Prop
  | .giveUp _ => Excused l
  | .exhausted _ => p.attempts ≤ spent p l
  | .retry t _ => Reckons p l t

variable {p : RetryPolicy} {event : Event} {t : Tally} {l : Transcript ledger} {x : Exchange ledger}

theorem losses_cons_of_ne {c : UniqueConstraint} (h : x.fault? ≠ some (.uniqueViolation c)) :
    losses c (x :: l) = losses c l := by
  rw [losses, List.countP_cons_of_neg (by simpa using h), losses]

theorem losses_cons_of_eq {c : UniqueConstraint} (h : x.fault? = some (.uniqueViolation c)) :
    losses c (x :: l) = losses c l + 1 := by
  rw [losses, List.countP_cons_of_pos (by simpa using h), losses]

theorem Excused.cons (h : Excused l) (x : Exchange ledger) : Excused (x :: l) := by
  obtain ⟨y, hy, hexcuse⟩ := h
  exact ⟨y, List.mem_cons_of_mem x hy, hexcuse⟩

/-- A call that has failed otherwise than by a constraint is an excuse. -/
theorem excused_of_fault {e : StoreError} (hx : x.fault? = some e)
    (he : ∀ c, e ≠ .uniqueViolation c) : Excused (x :: l) :=
  ⟨x, List.mem_cons_self, .inr ⟨e, hx, he⟩⟩

theorem excused_of_stop (hx : x.IsStop) : Excused (x :: l) :=
  ⟨x, List.mem_cons_self, .inl hx⟩

theorem spent_cons_le (x : Exchange ledger) : spent p l ≤ spent p (x :: l) := by
  have hsequence : losses .sequence l ≤ losses .sequence (x :: l) :=
    (List.sublist_cons_self x l).countP_le
  have hkey : losses .dedupKey l ≤ losses .dedupKey (x :: l) :=
    (List.sublist_cons_self x l).countP_le
  unfold spent
  omega

theorem losses_eq_lost (c : UniqueConstraint) (l : Transcript ledger) :
    losses c l = lost c (l.filterMap Exchange.fault?) := by
  rw [losses, lost, List.count, List.countP_filterMap]
  refine List.countP_congr fun x _ => ?_
  cases x.fault? <;> simp

/-- A tally reckons just if it has the lost inserts right among what the calls failed with. -/
theorem reckons_iff : Reckons p l t ↔ CountsLosses p (l.filterMap Exchange.fault?) t := by
  have hspent : spent p l = consumed p (l.filterMap Exchange.fault?) := by
    rw [spent, losses_eq_lost, losses_eq_lost, consumed]
  constructor
  · rintro ⟨hattempts, hcollisions⟩
    exact ⟨hattempts.trans hspent, hcollisions.trans (losses_eq_lost _ _)⟩
  · rintro ⟨hattempts, hcollisions⟩
    exact ⟨hattempts.trans hspent.symm, hcollisions.trans (losses_eq_lost _ _).symm⟩

theorem reckons_nil (p : RetryPolicy) : Reckons p [] {} :=
  reckons_iff.mpr (counts_nil p).toCountsLosses

namespace Reckons

/-- A call that met no constraint changes nothing. -/
theorem cons (h : Reckons p l t) (hx : ∀ c, x.fault? ≠ some (.uniqueViolation c)) :
    Reckons p (x :: l) t := by
  rw [reckons_iff] at h ⊢
  cases hfault : x.fault? with
  | none => rwa [List.filterMap_cons_none hfault]
  | some e =>
    rw [List.filterMap_cons_some hfault]
    exact h.other fun c he => hx c (he ▸ hfault)

/-- The tally after a lost sequence. -/
theorem loseSequence (h : Reckons p l t) (hx : x.fault? = some (.uniqueViolation .sequence)) :
    Reckons p (x :: l) { t with attempts := t.attempts + 1 } := by
  rw [reckons_iff] at h ⊢
  rw [List.filterMap_cons_some hx]
  exact h.sequence

/-- The tally after a taken key. -/
theorem loseKey (h : Reckons p l t) (hx : x.fault? = some (.uniqueViolation .dedupKey)) :
    Reckons p (x :: l)
      (let t := { t with collisions := t.collisions + 1 }
      if t.collisions ≤ p.attempts then t else { t with attempts := t.attempts + 1 }) := by
  rw [reckons_iff] at h ⊢
  rw [List.filterMap_cons_some hx]
  exact h.dedupKey

theorem afterLoss (h : Reckons p l t) (wait : Option Nat) : (t.afterLoss p wait).Agrees p l := by
  unfold Tally.afterLoss
  split
  · rename_i hle
    rw [h.attempts] at hle
    exact hle
  · exact h

/-- **The verdict on a failed pass agrees with the reckoning.** -/
theorem judge (h : Reckons p l t) {e : StoreError} (hx : x.fault? = some e) :
    (t.judge p e).Agrees p (x :: l) := by
  match e with
  | .uniqueViolation .sequence => exact (h.loseSequence hx).afterLoss _
  | .uniqueViolation .dedupKey => exact (h.loseKey hx).afterLoss _
  | .unavailable reason =>
    unfold Tally.judge
    dsimp only
    split
    · exact excused_of_fault hx (by simp)
    · -- an outage is counted by itself
      have ht := h.cons (x := x) (by simp [hx])
      exact ⟨ht.attempts, ht.collisions⟩
  | .corrupt sequence reason => exact excused_of_fault hx (by simp)
  | .backend reason => exact excused_of_fault hx (by simp)

end Reckons

/-! ### The program -/

/-- How one pass may end that began with the tally `t`. -/
def EndsTry (p : RetryPolicy) (t : Tally) (l : Transcript ledger) :
    Except Crash (Except StoreError (Option Outcome)) → Prop
  | .ok (.ok (some _)) => True
  | .ok (.ok none) => Excused l ∧ NoneDone l
  | .ok (.error e) =>
    NoneDone l ∧ ∃ x before, l = x :: before ∧ x.fault? = some e ∧ Reckons p before t
  | .error _ => Overflown l

/-- One pass makes one insert at most. -/
theorem attempt_spends (hl : NoneDone l) (ht : Reckons p l t) :
    (attempt event).caught.Obeys MaySpend (EndsTry p t) l := by
  refine ⟨.inl hl, ?_⟩
  rintro (err | _ | stored)
  · exact ⟨hl.cons (by simp), _, _, rfl, rfl, ht⟩
  · have hfind : NoneDone (⟨.find event.dedupKey, .ok none⟩ :: l) := hl.cons (by simp)
    have htfind : Reckons p (⟨.find event.dedupKey, .ok none⟩ :: l) t :=
      ht.cons (by simp [Exchange.fault?])
    refine ⟨.inl hfind, ?_⟩
    rintro (err | tail)
    · exact ⟨hfind.cons (by simp), _, _, rfl, rfl, htfind⟩
    · have htail : NoneDone (⟨.tail, .ok tail⟩ :: ⟨.find event.dedupKey, .ok none⟩ :: l) :=
        hfind.cons (by simp)
      have httail : Reckons p (⟨.tail, .ok tail⟩ :: ⟨.find event.dedupKey, .ok none⟩ :: l) t :=
        htfind.cons (by simp [Exchange.fault?])
      cases hlink : ChainTail.nextLink? tail with
      | none =>
        simp only [hlink]
        obtain ⟨last, rfl, hmax⟩ := ChainTail.nextLink?_eq_none_iff.mp hlink
        exact ⟨last, List.mem_cons_self, hmax⟩
      | some link =>
        simp only [hlink]
        refine ⟨.inl htail, ?_⟩
        rintro (_ | _)
        · have hgo := htail.cons (x := ⟨.cancelled, false⟩) (by simp)
          refine ⟨.inl hgo, ?_⟩
          rintro (err | _)
          · exact ⟨hgo.cons (by simp), _, _, rfl, rfl, httail.cons (by simp [Exchange.fault?])⟩
          · exact ⟨.inr ⟨_, rfl⟩, fun _ => trivial⟩
        · exact ⟨excused_of_stop (.inl rfl), htail.cons (by simp)⟩
  · exact ⟨.inl (hl.cons (by simp)), fun _ => trivial⟩

/-- The last lookup comes after the attempts are spent. -/
theorem lastLookup_spends (hl : NoneDone l) (hspent : p.attempts ≤ spent p l) (attempts : Nat) :
    (lastLookup event attempts).caught.Obeys MaySpend (EndsSpent p) l := by
  refine ⟨.inl hl, ?_⟩
  rintro (err | _ | stored)
  · exact .inr (Nat.le_trans hspent (spent_cons_le _))
  · refine ⟨.inr ⟨_, rfl⟩, fun _ => .inr ?_⟩
    exact Nat.le_trans hspent (Nat.le_trans (spent_cons_le _) (spent_cons_le _))
  · exact ⟨.inr ⟨_, rfl⟩, fun _ => trivial⟩

/-- The passes that are left spend what the tally has left of the budget. -/
theorem submitFrom_spends (t : Tally) (hl : NoneDone l) (ht : Reckons p l t) :
    (submitFrom p event t).caught.Obeys MaySpend (EndsSpent p) l := by
  -- as in `submitFrom_obeys`, every retry leaves less to spend
  induction hn : t.left p using Nat.strongRecOn generalizing t l with
  | ind n ih =>
    subst hn
    rw [submitFrom]
    refine ⟨.inl hl, ?_⟩
    rintro (_ | _)
    · show ((attempt event).bind _).caught.Obeys _ _ _
      rw [Program.caught_bind]
      refine (attempt_spends (hl.cons (by simp)) (ht.cons (by simp [Exchange.fault?]))).bind ?_
      rintro l (crash | err | _ | outcome) hend
      · exact hend
      · obtain ⟨hl, x, before, rfl, hx, hbefore⟩ := hend
        have hagrees := hbefore.judge hx
        dsimp only
        split
        · rename_i error hjudge
          rw [hjudge] at hagrees
          have hexcused : Excused (x :: before) := hagrees
          exact ⟨.inl hl, fun _ => .inl (hexcused.cons _)⟩
        · rename_i attempts hjudge
          rw [hjudge] at hagrees
          exact lastLookup_spends hl hagrees _
        · rename_i t' hjudge
          rw [hjudge] at hagrees
          have ht' : Reckons p (x :: before) t' := hagrees
          exact ⟨.inl hl, fun _ => ih _ (Tally.left_lt_of_judge hjudge) t' (hl.cons (by simp))
            (ht'.cons (by simp [Exchange.fault?])) rfl⟩
        · rename_i t' retry hjudge
          rw [hjudge] at hagrees
          have ht' : Reckons p (x :: before) t' := hagrees
          have hnote := hl.cons (x := ⟨.note .retrying, ()⟩) (by simp)
          refine ⟨.inl hl, fun _ => ⟨.inl hnote, ?_⟩⟩
          rintro (_ | _)
          · exact ih _ (Tally.left_lt_of_judge hjudge) t' (hnote.cons (by simp))
              ((ht'.cons (by simp [Exchange.fault?])).cons (by simp [Exchange.fault?])) rfl
          · exact .inl (excused_of_stop (.inr ⟨_, rfl⟩))
      · obtain ⟨hexcused, hl⟩ := hend
        exact ⟨.inl hl, fun _ => .inl (hexcused.cons _)⟩
      · trivial
    · refine ⟨.inl (hl.cons (by simp)), fun _ => .inl ?_⟩
      exact (excused_of_stop (.inl rfl)).cons _

/-- **A submission fails only if it is excused or has spent its budget**, crashes only at the end of
all sequences, and makes one insert at most that is done. -/
theorem submit_spends (p : RetryPolicy) (event : Event) :
    (submit p event).caught.Obeys MaySpend (EndsSpent p) [] :=
  submitFrom_spends {} noneDone_nil (reckons_nil p)

end AuditChain
