import AuditChain.Decimal.Shortest

/-!
# The binary number nearest to a decimal

A decimal denotes the floating-point number of 64 bits that is nearest to it, and of two equally
near the one with the even significand.  A decimal that is too large for all of them denotes none.
The search is exact, in natural numbers.

## Main definitions

* `Decimal.Nearest` — what a decimal denotes.
* `Decimal.nearest` — the number that a decimal denotes.
* `Decimal.Nearest.whole?` — the number as a natural number, if it is one.
-/

namespace AuditChain.Decimal

open Text

/-- What a decimal denotes. -/
inductive Nearest where
  /-- The number `significand · 2 ^ exponent`. -/
  | number (significand : Nat) (exponent : Int)
  /-- A number beyond all bounds. -/
  | beyond
  deriving DecidableEq, Repr

/-- A quotient rounded to the nearest natural number, a half to the even neighbour. -/
def roundEven (num den : Nat) : Nat :=
  let below := num / den
  let twice := 2 * (num % den)
  if twice < den then below
  else if den < twice then below + 1
  else if below % 2 = 0 then below else below + 1

/-- The exponent of two of the leading bit of a positive quotient. -/
def leadingBit (num den : Nat) : Int :=
  let guess : Int := (Nat.log2 num : Int) - Nat.log2 den
  let (num, den) := scaled 2 num den (-guess)
  if num < den then guess - 1 else guess

/-- The power of two in the greatest numbers. -/
def maxExponent : Int := 971

/-- The power of two in the least numbers. -/
def minExponent : Int := -1074

/-- A positive quotient rounded to a floating-point number. -/
def nearestQuotient (num den : Nat) : Nearest :=
  let exponent := max (leadingBit num den - 52) minExponent
  let (num, den) := scaled 2 num den (-exponent)
  let significand := roundEven num den
  if maxExponent < exponent then .beyond
  else if exponent = maxExponent ∧ 2 * hiddenBit ≤ significand then .beyond
  else .number significand exponent

/-- The number that a decimal denotes.  Decimals from `10 ^ 310` on are beyond all bounds, and those
below `10 ^ (-330)` are nearest to zero. -/
def nearest (d : Decimal) : Nearest :=
  let leading : Int := (natural d.digits).length + d.exponent
  if d.digits = 0 then .number 0 0
  else if 310 < leading then .beyond
  else if leading < -330 then .number 0 0
  else
    let (num, den) := scaled 10 d.digits 1 d.exponent
    nearestQuotient num den

/-- A number as a natural number, if it is one. -/
def Nearest.whole? : Nearest → Option Nat
  | .beyond => none
  | .number significand exponent =>
    let (num, den) := scaled 2 significand 1 exponent
    if num % den = 0 then some (num / den) else none

end AuditChain.Decimal
