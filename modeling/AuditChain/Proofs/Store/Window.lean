import AuditChain.Store.Ordered
import Mathlib.Data.List.Basic
import Mathlib.Data.List.Pairwise

/-!
# Windows of ascending lists

What lies between two keys of an ascending list, and how such a window is taken apart at one of its
members: what comes before lies below its key, and what comes after lies above.

## Main definitions

* `within` — what lies between two keys.

## Main results

* `find?_eq_some_iff_of_unique` — what a search finds that only one member can meet.
* `within_before`, `within_after` — the two sides of a member.
* `rest_eq_nil_of_stop` — when a window that is read in batches has been read.
* `ahead_induction` — reading on behind what has been read.
-/

namespace AuditChain

variable {α : Type}

/-! ### Members told apart -/

/-- Members that a function tells apart are equal where it does not. -/
theorem eq_of_pairwise_ne {β : Type} {f : α → β} {xs : List α}
    (h : xs.Pairwise fun x y => f x ≠ f y) {x y : α} (hx : x ∈ xs) (hy : y ∈ xs)
    (heq : f x = f y) : x = y := by
  by_contra hne
  have : Std.Symm fun x y => f x ≠ f y := ⟨fun _ _ => Ne.symm⟩
  exact h.forall hx hy hne heq

/-- A search for what only one member can be finds that member. -/
theorem find?_eq_some_iff_of_unique {p : α → Bool} {xs : List α}
    (h : ∀ x ∈ xs, ∀ y ∈ xs, p x = true → p y = true → x = y) {x : α} :
    xs.find? p = some x ↔ x ∈ xs ∧ p x = true := by
  constructor
  · intro hx
    exact ⟨List.mem_of_find?_eq_some hx, List.find?_some hx⟩
  · rintro ⟨hx, hpx⟩
    cases hy : xs.find? p with
    | none => exact absurd hpx (List.find?_eq_none.mp hy x hx)
    | some y => rw [h x hx y (List.mem_of_find?_eq_some hy) hpx (List.find?_some hy)]

/-- What is taken from a list, and what is left of it. -/
theorem exists_take (n : Nat) (xs : List α) : ∃ taken rest, xs = taken ++ rest ∧ xs.take n = taken ∧
    taken.length ≤ n ∧ (taken.length < n → rest = []) := by
  refine ⟨_, _, (List.take_append_drop n xs).symm, rfl, List.length_take_le _ _, ?_⟩
  intro hlt
  rw [List.length_take] at hlt
  exact List.drop_of_length_le (by omega)

/-! ### Windows -/

variable {key : α → UInt64} {xs : List α} {a b : UInt64}

/-- Members of an ascending list are told apart by their keys. -/
theorem Ascending.pairwise_ne (h : Ascending key xs) : xs.Pairwise fun x y => key x ≠ key y :=
  h.imp fun hlt => UInt64.ne_of_lt hlt

/-- What has a key from `a` to `b`. -/
def within (key : α → UInt64) (a b : UInt64) (xs : List α) : List α :=
  xs.filter fun x => a ≤ key x && key x ≤ b

theorem mem_within {x : α} : x ∈ within key a b xs ↔ x ∈ xs ∧ a ≤ key x ∧ key x ≤ b := by
  simp [within]

/-- What a window is found to have is in the window. -/
theorem mem_of_within_eq {before after : List α} {x : α}
    (h : within key a b xs = before ++ x :: after) : x ∈ xs ∧ a ≤ key x ∧ key x ≤ b := by
  rw [← mem_within, h]
  simp

/-- A window above all members has none of them. -/
theorem within_eq_nil (h : ∀ x ∈ xs, key x < a) : within key a b xs = [] := by
  refine List.eq_nil_iff_forall_not_mem.mpr fun x hx => ?_
  obtain ⟨hmem, hge, -⟩ := mem_within.mp hx
  exact UInt64.not_lt.mpr hge (h x hmem)

theorem Ascending.within (h : Ascending key xs) : Ascending key (AuditChain.within key a b xs) :=
  h.filter _

/-- A window that holds all keys holds all members. -/
theorem within_eq_self (h : ∀ x ∈ xs, a ≤ key x ∧ key x ≤ b) : within key a b xs = xs := by
  rw [within, List.filter_eq_self]
  intro x hx
  simpa using h x hx

/-- What is in an ascending list before and after a member lies below and above it. -/
theorem Ascending.split {before after : List α} {x : α} (h : Ascending key (before ++ x :: after)) :
    (∀ y ∈ before, key y < key x) ∧ ∀ y ∈ after, key x < key y := by
  rw [Ascending, List.pairwise_append, List.pairwise_cons] at h
  exact ⟨fun y hy => h.2.2 y hy x List.mem_cons_self, h.2.1.1⟩

/-- Of a list that ascends through a member, what lies below that is what comes before. -/
theorem Ascending.filter_lt {before after : List α} {x : α}
    (h : Ascending key (before ++ x :: after)) :
    (before ++ x :: after).filter (fun y => key y < key x) = before := by
  obtain ⟨hbefore, hafter⟩ := h.split
  have hnone : ∀ y ∈ x :: after, ¬decide (key y < key x) = true := by
    intro y hy
    rcases List.mem_cons.mp hy with rfl | hy
    · simp
    · simpa using UInt64.le_of_lt (hafter y hy)
  rw [List.filter_append, List.filter_eq_nil_iff.mpr hnone, List.append_nil, List.filter_eq_self]
  intro y hy
  simpa using hbefore y hy

/-- Of a list that ascends through a member, what lies above that is what comes after. -/
theorem Ascending.filter_gt {before after : List α} {x : α}
    (h : Ascending key (before ++ x :: after)) :
    (before ++ x :: after).filter (fun y => key x < key y) = after := by
  obtain ⟨hbefore, hafter⟩ := h.split
  have hnone : ∀ y ∈ before, ¬decide (key x < key y) = true := by
    intro y hy
    simpa using UInt64.le_of_lt (hbefore y hy)
  rw [List.filter_append, List.filter_eq_nil_iff.mpr hnone, List.nil_append,
    List.filter_cons_of_neg (by simp), List.filter_eq_self]
  intro y hy
  simpa using hafter y hy

/-- Nothing comes after a member at the end of the window. -/
theorem after_eq_nil (hasc : Ascending key xs) {before after : List α} {x : α}
    (h : within key a b xs = before ++ x :: after) (hx : b ≤ key x) : after = [] := by
  refine List.eq_nil_iff_forall_not_mem.mpr ?_
  intro y hy
  have habove := (h ▸ hasc.within : Ascending key (before ++ x :: after)).split.2 y hy
  have hmem : y ∈ within key a b xs := by
    rw [h]
    exact List.mem_append_right _ (List.mem_cons_of_mem _ hy)
  exact UInt64.lt_irrefl _ (UInt64.lt_of_lt_of_le (UInt64.lt_of_le_of_lt hx habove)
    (mem_within.mp hmem).2.2)

/-- A batch off a window that does not go on behind its last member has left nothing: it is short of
`batch`, or its last member is where the window ends. -/
theorem rest_eq_nil_of_stop (hasc : Ascending key xs) {before rest : List α} {x : α} {n batch : Nat}
    (h : within key a b xs = before ++ x :: rest) (hfull : n < batch → rest = [])
    (hstop : ¬(batch ≤ n ∧ a ≤ key x ∧ key x < b)) : rest = [] := by
  by_cases hshort : n < batch
  · exact hfull hshort
  · have hend : b ≤ key x := UInt64.not_lt.mp fun hlt =>
      hstop ⟨Nat.not_lt.mp hshort, (mem_of_within_eq h).2.1, hlt⟩
    exact after_eq_nil hasc h hend

/-- Nothing comes before a member at the start of the window. -/
theorem before_eq_nil (hasc : Ascending key xs) {before after : List α} {x : α}
    (h : within key a b xs = before ++ x :: after) (hx : key x ≤ a) : before = [] := by
  refine List.eq_nil_iff_forall_not_mem.mpr ?_
  intro y hy
  have hbelow := (h ▸ hasc.within : Ascending key (before ++ x :: after)).split.1 y hy
  have hmem : y ∈ within key a b xs := by
    rw [h]
    exact List.mem_append_left _ hy
  exact UInt64.lt_irrefl _ (UInt64.lt_of_lt_of_le (UInt64.lt_of_lt_of_le hbelow hx)
    (mem_within.mp hmem).2.1)

theorem toNat_succ_of_lt (h : a < b) : (a + 1).toNat = a.toNat + 1 := by
  rw [UInt64.lt_iff_toNat_lt] at h
  have hb := b.toNat_lt
  rw [UInt64.toNat_add, UInt64.toNat_one, Nat.mod_eq_of_lt (by omega)]

theorem toNat_pred_of_lt (h : a < b) : (b - 1).toNat = b.toNat - 1 := by
  rw [UInt64.lt_iff_toNat_lt] at h
  have hone : 1 ≤ b := by
    rw [UInt64.le_iff_toNat_le, UInt64.toNat_one]
    omega
  rw [UInt64.toNat_sub_of_le _ _ hone, UInt64.toNat_one]

theorem le_succ_of_le_of_lt (h : a ≤ b) {c : UInt64} (hlt : b < c) : a ≤ b + 1 := by
  rw [UInt64.le_iff_toNat_le] at h ⊢
  rw [toNat_succ_of_lt hlt]
  exact Nat.le_succ_of_le h

/-- Whoever goes on behind what lies between has less before it. -/
theorem succ_within {x : UInt64} (hx : a ≤ x) (hlt : x < b) :
    x + 1 ≤ b ∧ b.toNat - (x + 1).toNat < b.toNat - a.toNat := by
  simp only [UInt64.le_iff_toNat_le, UInt64.lt_iff_toNat_lt, toNat_succ_of_lt hlt] at hx hlt ⊢
  omega

/-- Whoever goes on behind what lies between comes to an end, so it is enough to show how one gets
from what is ahead of all that to what is ahead now. -/
theorem ahead_induction (last : UInt64) {motive : UInt64 → Prop}
    (step : ∀ next, (∀ newest, next ≤ newest → newest < last → motive (newest + 1)) → motive next)
    (next : UInt64) : motive next := by
  -- the distance from `next` to `last` shrinks
  induction hn : last.toNat - next.toNat using Nat.strongRecOn generalizing next with
  | ind n ih =>
    subst hn
    exact step next fun newest hnewest hlt => ih _ (succ_within hnewest hlt).2 _ rfl

/-- The window up to a member of a window. -/
theorem within_before (hasc : Ascending key xs) {before after : List α} {x : α}
    (h : within key a b xs = before ++ x :: after) (hlt : a < key x) :
    within key a (key x - 1) xs = before := by
  have hx : key x ≤ b := (mem_of_within_eq h).2.2
  have hfilter : within key a (key x - 1) xs =
      (within key a b xs).filter fun y => key y < key x := by
    rw [within, within, List.filter_filter]
    refine List.filter_congr ?_
    intro y _
    rw [Bool.eq_iff_iff]
    simp only [Bool.and_eq_true, decide_eq_true_eq, UInt64.le_iff_toNat_le, UInt64.lt_iff_toNat_lt,
      toNat_pred_of_lt hlt] at hlt hx ⊢
    omega
  rw [hfilter, h]
  exact (h ▸ hasc.within : Ascending key (before ++ x :: after)).filter_lt

/-- The window from a member of a window on. -/
theorem within_after (hasc : Ascending key xs) {before after : List α} {x : α}
    (h : within key a b xs = before ++ x :: after) (hlt : key x < b) :
    within key (key x + 1) b xs = after := by
  have hx : a ≤ key x := (mem_of_within_eq h).2.1
  have hfilter : within key (key x + 1) b xs =
      (within key a b xs).filter fun y => key x < key y := by
    rw [within, within, List.filter_filter]
    refine List.filter_congr ?_
    intro y _
    rw [Bool.eq_iff_iff]
    simp only [Bool.and_eq_true, decide_eq_true_eq, UInt64.le_iff_toNat_le, UInt64.lt_iff_toNat_lt,
      toNat_succ_of_lt hlt] at hlt hx ⊢
    omega
  rw [hfilter, h]
  exact (h ▸ hasc.within : Ascending key (before ++ x :: after)).filter_gt

end AuditChain
