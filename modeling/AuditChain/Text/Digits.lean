/-!
# Decimal digits

Reading and writing unsigned decimal numbers with ASCII digits: with a fixed number of places,
padded with zeros on the left, or with as many as the number needs.

## Main definitions

* `Text.isDigit`, `Text.digitValue`, `Text.digitChar` — one digit.
* `Text.fixed` — a number in a fixed number of places.
* `Text.natural` — a number in as many places as it needs.
* `Text.padded` — a number in at least so many places.
* `Text.valueOf` — the number that a run of digits denotes.
-/

namespace AuditChain.Text

/-- One of the ten ASCII digits. -/
def isDigit (c : Char) : Bool :=
  '0' ≤ c && c ≤ '9'

/-- The value of an ASCII digit. -/
def digitValue (c : Char) : Nat :=
  c.toNat - 48

/-- The digit of a value below ten. -/
def digitChar (n : Nat) : Char :=
  Char.ofNat (48 + n % 10)

/-- The last `places` decimal digits of `n`, the highest first. -/
def fixed : (places n : Nat) → List Char
  | 0, _ => []
  | places + 1, n => fixed places (n / 10) ++ [digitChar n]

/-- The decimal digits of `n` without leading zeros; zero is one digit. -/
def natural (n : Nat) : List Char :=
  Nat.toDigits 10 n

/-- The decimal digits of `n`, filled up with zeros on the left to at least `places` digits. -/
def padded (places n : Nat) : List Char :=
  List.replicate (places - (natural n).length) '0' ++ natural n

/-- The number that a list of digits denotes, the highest first. -/
def valueOf (s : List Char) : Nat :=
  s.foldl (fun n c => 10 * n + digitValue c) 0

@[simp] theorem fixed_zero (n : Nat) : fixed 0 n = [] := rfl

@[simp] theorem fixed_succ (places n : Nat) :
    fixed (places + 1) n = fixed places (n / 10) ++ [digitChar n] := rfl

@[simp] theorem length_fixed (places n : Nat) : (fixed places n).length = places := by
  induction places generalizing n with
  | zero => rfl
  | succ k ih => simp [ih]

@[simp] theorem valueOf_nil : valueOf [] = 0 := rfl

theorem valueOf_append_singleton (s : List Char) (c : Char) :
    valueOf (s ++ [c]) = 10 * valueOf s + digitValue c := by
  simp [valueOf]

end AuditChain.Text
