import AuditChain.Decimal.Wide

/-!
# Numerals as primary keys

A text that is put where a primary key belongs is read as a number: a sign, digits with at most one
point, an exponent, and blanks around it all.  An integer stands for itself; any other numeral
for a floating-point number close to it, which is a key if it has no fraction.

## Main definitions

* `Numeral` — a number in writing.
* `Numeral.read?` — the number that a text says.
* `Numeral.key?` — the primary key that it can be.
-/

namespace AuditChain

/-- The greatest integer that a primary key can be. -/
def maxRowid : Int := 9223372036854775807

/-- The integers that a primary key can be. -/
def isRowid (n : Int) : Bool :=
  -maxRowid - 1 ≤ n && n ≤ maxRowid

/-- A number in writing. -/
structure Numeral where
  /-- There is a minus sign. -/
  negative : Bool := false
  /-- There are neither a point nor an exponent. -/
  plain : Bool := true
  /-- The digits before the point. -/
  whole : List Char
  /-- The digits behind the point. -/
  fraction : List Char := []
  /-- The exponent. -/
  exponent : Int := 0
  deriving DecidableEq, Repr

namespace Numeral

/-- A blank that may stand around a numeral. -/
def isBlank (c : Char) : Bool :=
  c == ' ' || (9 ≤ c.toNat && c.toNat ≤ 13)

/-- A text without the blanks around it. -/
def trim (s : List Char) : List Char :=
  ((s.dropWhile isBlank).reverse.dropWhile isBlank).reverse

/-- Whether there is a minus sign, and what stands behind the sign. -/
def splitSign : List Char → Bool × List Char
  | '-' :: s => (true, s)
  | '+' :: s => (false, s)
  | s => (false, s)

/-- The digits at the head of a text, and what stands behind them. -/
def splitDigits (s : List Char) : List Char × List Char :=
  (s.takeWhile Text.isDigit, s.dropWhile Text.isDigit)

/-- The number that the digits of an exponent denote.  Once it has five digits, any digit more makes it
ten thousand. -/
def exponentOf (digits : List Char) : Nat :=
  digits.foldl (fun n c => if n < 10000 then 10 * n + Text.digitValue c else 10000) 0

/-- The exponent that a text is, all of it; zero if there is nothing. -/
def exponent? : List Char → Option Int
  | [] => some 0
  | mark :: s =>
    let (negative, s) := splitSign s
    let (digits, rest) := splitDigits s
    if (mark = 'e' ∨ mark = 'E') ∧ digits ≠ [] ∧ rest = [] then
      let n : Int := exponentOf digits
      some (if negative then -n else n)
    else none

/-- The number that a text says. -/
def read? (s : List Char) : Option Numeral :=
  let (negative, s) := splitSign (trim s)
  let (whole, s) := splitDigits s
  let (fraction, rest) := match s with
    | '.' :: s => splitDigits s
    | s => ([], s)
  if whole = [] ∧ fraction = [] then none
  else
    (exponent? rest).map fun exponent => { negative, plain := s.isEmpty, whole, fraction, exponent }

/-- A magnitude under the sign of a numeral. -/
def signed (n : Numeral) (magnitude : Nat) : Int :=
  if n.negative then -magnitude else magnitude

/-- The floating-point number that a numeral stands for, without its sign.  Digits for which there is no
room do not count, but those before the point keep their places. -/
def approximate (n : Numeral) : Decimal.Nearest :=
  let (digits, skipped) := Decimal.gather 0 n.whole
  let (digits, dropped) := Decimal.gather digits n.fraction
  let places : Int := n.fraction.length - dropped.length
  Decimal.inSteps digits (n.exponent + skipped.length - places)

/-- The primary key that a numeral can be.  A number that was rounded must lie between the least key
and the greatest. -/
def key? (n : Numeral) : Option Int :=
  let exact := n.signed (Text.valueOf n.whole)
  if n.plain ∧ isRowid exact then some exact
  else
    (n.approximate.whole?.map n.signed).filter fun key => -maxRowid ≤ key && key ≤ maxRowid

end Numeral

end AuditChain
