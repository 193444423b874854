import AuditChain.Decimal.Nearest

/-!
# Decimals brought to binary numbers in wide precision

A decimal can be brought to a floating-point number step by step instead of exactly: its leading
digits are kept as far as 64 bits hold them, powers of ten are moved between these digits and the
exponent as far as that loses nothing, and what is left of the exponent is multiplied in with a
significand of 64 bits, rounded at every step.  The result may miss the nearest floating-point number
by one place.

## Main definitions

* `Decimal.gather` — the number of the leading digits of a text.
* `Decimal.Wide` — a number with a significand of 64 bits.
* `Decimal.inSteps` — the floating-point number that a decimal is brought to.
-/

namespace AuditChain.Decimal

open Text

/-- A number below this bound can take one digit more into 64 bits. -/
def roomForDigit : Nat := 1844674407370955160

/-- A number up to this bound stays within 64 bits when it is multiplied by ten. -/
def roomForZero : Nat := 1844674407370955161

/-- Puts digits behind a number as long as there is room; the digits that are left come with it. -/
def gather (n : Nat) : List Char → Nat × List Char
  | [] => (n, [])
  | c :: s => if n < roomForDigit then gather (10 * n + digitValue c) s else (n, c :: s)

/-- Multiplies a number by powers of ten of an exponent as long as there is room. -/
def raised (n : Nat) : (exponent : Nat) → Nat × Nat
  | 0 => (n, 0)
  | e + 1 => if n < roomForZero then raised (10 * n) e else (n, e + 1)

/-- Takes the zeros at the end of a number out of a negative exponent. -/
def lowered (n : Nat) : (exponent : Nat) → Nat × Nat
  | 0 => (n, 0)
  | e + 1 => if n % 10 = 0 then lowered (n / 10) e else (n, e + 1)

/-- A number `significand · 2 ^ exponent` with a significand of 64 bits. -/
structure Wide where
  /-- The significand. -/
  significand : Nat
  /-- The power of two. -/
  exponent : Int
  deriving DecidableEq, Repr

namespace Wide

/-- A positive quotient times a power of two, rounded to 64 bits. -/
def round (num den : Nat) (exponent : Int) : Wide :=
  let shift := leadingBit num den - 63
  let (num, den) := scaled 2 num den (-shift)
  ⟨roundEven num den, exponent + shift⟩

/-- A product, rounded. -/
def mul (a b : Wide) : Wide :=
  round (a.significand * b.significand) 1 (a.exponent + b.exponent)

/-- A power of ten, rounded. -/
def tenTo (power : Int) : Wide :=
  let (num, den) := scaled 10 1 1 power
  round num den 0

/-- A number multiplied so many times by the same factor. -/
def mulTimes (factor : Wide) : Nat → Wide → Wide
  | 0, a => a
  | n + 1, a => mulTimes factor n (a.mul factor)

/-- A number multiplied by a power of ten: by hundreds, by tens and by ones of the exponent. -/
def scaleBy (a : Wide) (power : Int) : Wide :=
  let n := power.natAbs
  let sign : Int := if 0 ≤ power then 1 else -1
  let a := mulTimes (tenTo (sign * 100)) (n / 100) a
  let a := mulTimes (tenTo (sign * 10)) (n % 100 / 10) a
  mulTimes (tenTo sign) (n % 10) a

/-- The floating-point number nearest to a positive number. -/
def nearest (a : Wide) : Nearest :=
  let (num, den) := scaled 2 a.significand 1 a.exponent
  nearestQuotient num den

end Wide

/-- The floating-point number that the decimal `n · 10 ^ exponent` is brought to. -/
def inSteps (n : Nat) (exponent : Int) : Nearest :=
  if n = 0 then .number 0 0
  else
    let (n, exponent) : Nat × Int :=
      if 0 ≤ exponent then
        let (n, e) := raised n exponent.toNat
        (n, e)
      else
        let (n, e) := lowered n exponent.natAbs
        (n, -e)
    ((Wide.round n 1 0).scaleBy exponent).nearest

end AuditChain.Decimal
