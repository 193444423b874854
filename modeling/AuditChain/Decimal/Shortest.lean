import AuditChain.Text.Digits

/-!
# The shortest decimal text of a binary number

A binary floating-point number is the exact value of many decimals: all those that lie closer to
it than to its neighbours.  The text of a number is the shortest of these decimals, and of the
shortest ones the nearest.

The search is exact.  The number is a quotient of natural numbers, and so are the two ends of the
interval of reals that round to it.  For one, two, … seventeen digits the two neighbours of the
number on that decimal grid are tried; seventeen digits always suffice.

## Main definitions

* `Decimal` — a natural number times a power of ten.
* `Decimal.Binary` — a positive number `m · 2 ^ q` with the interval that rounds to it.
* `Decimal.shortest` — the shortest decimal within the interval.
* `Decimal.layout` — how a decimal is written.
* `Decimal.text` — the text of a floating-point number.
-/

namespace AuditChain

open Text

/-- The decimal `digits · 10 ^ exponent`. -/
structure Decimal where
  /-- The digits as a number. -/
  digits : Nat
  /-- The power of ten. -/
  exponent : Int
  deriving DecidableEq, Repr

namespace Decimal

/-- A positive number `significand · 2 ^ exponent`. -/
structure Binary where
  /-- The significand. -/
  significand : Nat
  /-- The power of two. -/
  exponent : Int
  /-- The neighbour below is half as far away as the one above. -/
  narrowBelow : Bool
  deriving DecidableEq, Repr

/-- The quotient `num · base ^ power / den` as numerator and denominator. -/
def scaled (base num den : Nat) (power : Int) : Nat × Nat :=
  if 0 ≤ power then (num * Nat.pow base power.toNat, den)
  else (num, den * Nat.pow base power.natAbs)

/-- The exponent of the leading digit of a positive quotient. -/
def magnitude (num den : Nat) : Int :=
  if den ≤ num then (natural (num / den)).length - 1
  else -((natural ((num + den - 1) / num - 1)).length : Int)

namespace Binary

/-- A quarter of the unit in the last place of a number is the measure of its interval: the value
is `4 · significand` of them. -/
def quarters (b : Binary) (n : Nat) : Nat × Nat :=
  scaled 2 n 1 (b.exponent - 2)

/-- The decimals of a grid with the unit `10 ^ unit` that are next to the number: the one below it
and the one above it. -/
def neighbours (b : Binary) (unit : Int) : Nat × Nat :=
  let (num, den) := b.quarters (4 * b.significand)
  let (num, den) := scaled 10 num den (-unit)
  (num / den, num / den + 1)

/-- The decimal `digits · 10 ^ unit` rounds to the number.  The ends of the interval belong to it
if the significand is even. -/
def contains (b : Binary) (digits : Nat) (unit : Int) : Bool :=
  let (value, one) := scaled 10 digits 1 unit
  let (low, den) := b.quarters (4 * b.significand - if b.narrowBelow then 1 else 2)
  let (high, _) := b.quarters (4 * b.significand + 2)
  if b.significand % 2 = 0 then low * one ≤ value * den && value * den ≤ high * one
  else low * one < value * den && value * den < high * one

/-- Of two neighbours the nearer; of two equally near the even one. -/
def nearer (b : Binary) (below : Nat) (unit : Int) : Nat :=
  let (num, den) := b.quarters (4 * b.significand)
  let (num, den) := scaled 10 num den (-unit)
  let twice := 2 * num
  let middle := (2 * below + 1) * den
  if twice < middle then below
  else if middle < twice then below + 1
  else if below % 2 = 0 then below else below + 1

/-- The decimal with so many digits that rounds to the number and is nearest to it. -/
def withDigits? (b : Binary) (leading : Int) (count : Nat) : Option Decimal :=
  let unit := leading + 1 - count
  let (below, above) := b.neighbours unit
  match b.contains below unit, b.contains above unit with
  | true, true => some ⟨b.nearer below unit, unit⟩
  | true, false => some ⟨below, unit⟩
  | false, true => some ⟨above, unit⟩
  | false, false => none

end Binary

/-- A decimal without zeros at its end; `fuel` bounds their number. -/
def strip : (fuel : Nat) → Decimal → Decimal
  | 0, d => d
  | fuel + 1, d =>
    if d.digits % 10 = 0 ∧ d.digits ≠ 0 then strip fuel ⟨d.digits / 10, d.exponent + 1⟩ else d

/-- The shortest decimal that rounds to a number. -/
def shortest (b : Binary) : Decimal :=
  let (num, den) := b.quarters (4 * b.significand)
  let leading := magnitude num den
  let found := (List.range 17).findSome? fun n => b.withDigits? leading (n + 1)
  (found.getD ⟨0, 0⟩).strip 20

/-- The bit that a significand has above its fraction, and that is not written: the bit of weight
`2 ^ 52`. -/
def hiddenBit : Nat := 4503599627370496

/-- The bit of the sign, of weight `2 ^ 63`. -/
def signBit : Nat := 9223372036854775808

/-- The number behind the bits of a positive floating-point number of 64 bits: 52 bits of
fraction below 11 bits of exponent.  The least exponent has no hidden bit. -/
def Binary.ofBits (bits : Nat) : Binary :=
  let fraction := bits % hiddenBit
  let exponent : Nat := bits / hiddenBit % 2048
  if exponent = 0 then ⟨fraction, -1074, false⟩
  else ⟨hiddenBit + fraction, (exponent : Int) - 1075, fraction = 0 && 1 < exponent⟩

/-- How a positive decimal is written.  With a leading exponent from minus five to fifteen a point
stands at its place, and at least one digit on either side of it; otherwise the point follows the
first digit, and the exponent follows with its sign. -/
def layout (d : Decimal) : List Char :=
  let digits := natural d.digits
  let leading : Int := d.exponent + digits.length - 1
  if 0 ≤ leading ∧ leading ≤ 15 then
    if 0 ≤ d.exponent then digits ++ List.replicate d.exponent.toNat '0' ++ ".0".toList
    else
      let whole := leading.toNat + 1
      digits.take whole ++ '.' :: digits.drop whole
  else if -5 ≤ leading ∧ leading < 0 then
    "0.".toList ++ List.replicate (leading.natAbs - 1) '0' ++ digits
  else
    let fraction := if digits.length = 1 then [] else '.' :: digits.drop 1
    digits.take 1 ++ fraction
      ++ 'e' :: (if leading < 0 then '-' else '+') :: natural leading.natAbs

/-- The text of a finite floating-point number. -/
def text (x : Float) : String :=
  let bits := x.toBits.toNat
  let size := bits % signBit
  let sign := if signBit ≤ bits then ['-'] else []
  let body := if size = 0 then "0.0".toList else layout (shortest (Binary.ofBits size))
  String.ofList (sign ++ body)

end Decimal

end AuditChain
