/-!
# Ascending lists

Both stores hold what they store in strictly ascending order of a key, and put something new in at
its place.

## Main definitions

* `Ascending` — a list in strictly ascending order of a key.
* `place` — something put at its place, in place of what has the same key.

## Main results

* `place_perm`, `place_eq_append` — what a list holds after something new was placed, and where.
* `Ascending.place` — placing keeps the order.
-/

namespace AuditChain

variable {α κ : Type} [LT κ]

/-- Strictly ascending order of a key. -/
def Ascending (key : α → κ) (xs : List α) : Prop :=
  xs.Pairwise fun a b => key a < key b

/-- The empty list ascends. -/
theorem Ascending.nil {key : α → κ} : Ascending key [] :=
  List.Pairwise.nil

/-- What is left of an ascending list ascends. -/
theorem Ascending.filter {key : α → κ} {xs : List α} (h : Ascending key xs) (p : α → Bool) :
    Ascending key (xs.filter p) :=
  List.Pairwise.filter p h

/-- Puts something at its place; what has the same key makes way. -/
def place [DecidableLT κ] [DecidableEq κ] (key : α → κ) (a : α) : List α → List α
  | [] => [a]
  | x :: xs =>
    if key a < key x then a :: x :: xs
    else if key a = key x then a :: xs
    else x :: place key a xs

variable [DecidableLT κ] [DecidableEq κ]

/-- What `place` leaves was there before or is new. -/
theorem mem_of_mem_place {key : α → κ} {a x : α} {xs : List α} (h : x ∈ place key a xs) :
    x = a ∨ x ∈ xs := by
  induction xs with
  | nil => simpa [place] using h
  | cons y ys ih =>
    unfold place at h
    split at h
    · simpa using h
    · split at h
      · rcases List.mem_cons.1 h with h | h
        · exact .inl h
        · exact .inr (List.mem_cons_of_mem _ h)
      · rcases List.mem_cons.1 h with h | h
        · exact .inr (h ▸ List.mem_cons_self)
        · rcases ih h with h | h
          · exact .inl h
          · exact .inr (List.mem_cons_of_mem _ h)

/-- Placing something new adds it and moves nothing out. -/
theorem place_perm {key : α → κ} {a : α} {xs : List α} (hnew : ∀ y ∈ xs, key y ≠ key a) :
    (place key a xs).Perm (a :: xs) := by
  induction xs with
  | nil => exact .refl _
  | cons y ys ih =>
    unfold place
    split
    · exact .refl _
    · split
      · rename_i heq
        exact absurd heq.symm (hnew y List.mem_cons_self)
      · have hys := ih fun z hz => hnew z (List.mem_cons_of_mem _ hz)
        exact (hys.cons y).trans (.swap a y ys)

/-- What was there and what is new is there. -/
theorem mem_place_iff {key : α → κ} {a x : α} {xs : List α} (hnew : ∀ y ∈ xs, key y ≠ key a) :
    x ∈ place key a xs ↔ x = a ∨ x ∈ xs :=
  (place_perm hnew).mem_iff.trans List.mem_cons

/-- Placing adds one member at most. -/
theorem length_place_le (key : α → κ) (a : α) (xs : List α) :
    (place key a xs).length ≤ xs.length + 1 := by
  induction xs with
  | nil => simp [place]
  | cons y ys ih =>
    unfold place
    split
    · simp
    · split
      · simp
      · simpa using ih

/-- What comes last is placed at the end. -/
theorem place_eq_append [LE κ] [Std.LawfulOrderLT κ] [Std.IsLinearOrder κ] {key : α → κ} {a : α}
    {xs : List α} (hlast : ∀ y ∈ xs, key y < key a) : place key a xs = xs ++ [a] := by
  induction xs with
  | nil => rfl
  | cons y ys ih =>
    have hy : key y < key a := hlast y List.mem_cons_self
    have hnlt : ¬ key a < key y := Std.not_lt.2 (Std.le_of_lt hy)
    have hne : ¬ key a = key y := fun heq => Std.lt_irrefl (heq ▸ hy)
    rw [place, if_neg hnlt, if_neg hne, ih fun z hz => hlast z (List.mem_cons_of_mem _ hz)]
    rfl

/-- Placing keeps the order. -/
theorem Ascending.place [LE κ] [Std.LawfulOrderLT κ] [Std.IsLinearOrder κ] {key : α → κ} {a : α}
    {xs : List α} (h : Ascending key xs) : Ascending key (place key a xs) := by
  induction xs with
  | nil => simp [AuditChain.place, Ascending]
  | cons y ys ih =>
    obtain ⟨hy, hys⟩ := List.pairwise_cons.1 h
    unfold AuditChain.place
    split
    · rename_i hlt
      refine List.pairwise_cons.2 ⟨fun z hz => ?_, h⟩
      rcases List.mem_cons.1 hz with rfl | hz
      · exact hlt
      · exact Std.lt_trans hlt (hy z hz)
    · split
      · rename_i heq
        exact List.pairwise_cons.2 ⟨fun z hz => heq ▸ hy z hz, hys⟩
      · rename_i hlt hne
        refine List.pairwise_cons.2 ⟨fun z hz => ?_, ih hys⟩
        rcases mem_of_mem_place hz with rfl | hz
        · exact Std.lt_of_le_of_ne (Std.not_lt.1 hlt) (Ne.symm hne)
        · exact hy z hz

end AuditChain
