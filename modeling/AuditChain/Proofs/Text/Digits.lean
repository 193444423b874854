import Mathlib.Algebra.Group.Nat.Defs
import AuditChain.Text.Blank
import AuditChain.Text.Digits

/-!
# Digits written and read

A number that is written in decimal digits has digits only, and they denote the number.

## Main results

* `valueOf_fixed`, `valueOf_padded` — the digits of a number denote it.
* `isDigit_of_mem_fixed`, `isDigit_of_mem_padded` — they are digits.
-/

namespace AuditChain.Text

theorem isDigit_digitChar (n : Nat) : isDigit (digitChar n) = true := by
  have hall : ∀ m < 10, isDigit (Char.ofNat (48 + m)) = true := by decide
  exact hall (n % 10) (Nat.mod_lt n (by decide))

theorem digitValue_digitChar (n : Nat) : digitValue (digitChar n) = n % 10 := by
  have hall : ∀ m < 10, digitValue (Char.ofNat (48 + m)) = m := by decide
  exact hall (n % 10) (Nat.mod_lt n (by decide))

/-- The digits of a number in so many places are digits. -/
theorem isDigit_of_mem_fixed {places n : Nat} {c : Char} (h : c ∈ fixed places n) :
    isDigit c = true := by
  induction places generalizing n with
  | zero => exact absurd h List.not_mem_nil
  | succ places ih =>
    rw [fixed_succ, List.mem_append, List.mem_singleton] at h
    rcases h with h | rfl
    · exact ih h
    · exact isDigit_digitChar n

theorem fixed_ne_nil {places : Nat} (hplaces : 0 < places) (n : Nat) : fixed places n ≠ [] := by
  rw [← List.length_pos_iff, length_fixed]
  exact hplaces

/-- They denote the number, if it has no more places. -/
theorem valueOf_fixed {places n : Nat} (h : n < 10 ^ places) : valueOf (fixed places n) = n := by
  induction places generalizing n with
  | zero =>
    rw [Nat.pow_zero] at h
    rw [fixed_zero, valueOf_nil]
    omega
  | succ places ih =>
    have hdiv : n / 10 < 10 ^ places := by
      rw [Nat.pow_succ] at h
      omega
    rw [fixed_succ, valueOf_append_singleton, ih hdiv, digitValue_digitChar]
    omega

/-- The digits of a number without leading zeros are digits. -/
theorem isDigit_of_mem_natural {n : Nat} {c : Char} (h : c ∈ natural n) : isDigit c = true :=
  Nat.isDigit_of_mem_toDigits (by decide) (by decide) h

theorem natural_ne_nil (n : Nat) : natural n ≠ [] := by
  rw [natural, Nat.toDigits_eq_if (by decide)]
  split
  · exact List.cons_ne_nil _ _
  · exact List.append_ne_nil_of_right_ne_nil _ (List.cons_ne_nil _ _)

theorem exists_natural_eq_cons (n : Nat) :
    ∃ c digits, natural n = c :: digits ∧ isDigit c = true := by
  obtain ⟨c, digits, hhead⟩ := List.exists_cons_of_ne_nil (natural_ne_nil n)
  have hc : c ∈ natural n := by
    rw [hhead]
    exact List.mem_cons_self
  exact ⟨c, digits, hhead, isDigit_of_mem_natural hc⟩

/-- They denote the number. -/
theorem valueOf_natural (n : Nat) : valueOf (natural n) = n := by
  have hdigit : ∀ m < 10, digitValue (Nat.digitChar m) = m := by decide
  induction n using Nat.strongRecOn with
  | ind n ih =>
    rw [natural, Nat.toDigits_eq_if (by decide)]
    split
    · rename_i hlt
      rw [← List.nil_append [_], valueOf_append_singleton, valueOf_nil, hdigit n hlt]
      omega
    · rename_i hge
      have hless : n / 10 < n := by omega
      have hhead := ih (n / 10) hless
      rw [natural] at hhead
      rw [valueOf_append_singleton, hhead, hdigit (n % 10) (Nat.mod_lt n (by decide))]
      omega

theorem valueOf_zeros_append (k : Nat) (s : List Char) :
    valueOf (List.replicate k '0' ++ s) = valueOf s := by
  induction k with
  | zero => rfl
  | succ k ih =>
    rw [← ih]
    rfl

/-- The digits of a padded number are digits. -/
theorem isDigit_of_mem_padded {places n : Nat} {c : Char} (h : c ∈ padded places n) :
    isDigit c = true := by
  rcases List.mem_append.mp h with h | h
  · rw [(List.mem_replicate.mp h).2]
    decide
  · exact isDigit_of_mem_natural h

theorem padded_ne_nil (places n : Nat) : padded places n ≠ [] :=
  List.append_ne_nil_of_right_ne_nil _ (natural_ne_nil n)

/-- They denote the number. -/
theorem valueOf_padded (places n : Nat) : valueOf (padded places n) = n := by
  rw [padded, valueOf_zeros_append, valueOf_natural]

/-- A digit is no white space. -/
theorem isBlank_of_isDigit {c : Char} (h : isDigit c = true) : isBlank c = false := by
  have hle : 48 ≤ c.toNat ∧ c.toNat ≤ 57 := by
    rw [isDigit, Bool.and_eq_true, decide_eq_true_eq, decide_eq_true_eq] at h
    exact h
  simp [isBlank]
  omega

/-- A run of digits ends where something else begins. -/
theorem takeWhile_digits {digits : List Char} (h : ∀ c ∈ digits, isDigit c = true) {c : Char}
    (hc : isDigit c = false) (rest : List Char) :
    (digits ++ c :: rest).takeWhile isDigit = digits := by
  rw [List.takeWhile_append_of_pos h, List.takeWhile_cons_of_neg (by simp [hc]), List.append_nil]

end AuditChain.Text
