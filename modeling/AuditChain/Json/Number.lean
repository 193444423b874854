import AuditChain.Decimal.Shortest

/-!
# JSON numbers

A number without point and exponent is an integer as long as it fits 64 bits, without a sign if
it is not negative and with one if it is; every other number is a floating-point number.  Minus
zero is one too.

The digits of a number are gathered in a significand of 64 bits.  Digits that no longer fit are
dropped: before the point each of them counts for the exponent, after it for nothing.

## Main definitions

* `Json.Number` — the three kinds of number.
* `Json.Fault` — the two ways in which a text is no JSON at all.
* `Json.readNumber` — reads a number.
* `Json.skipNumber` — passes over a number whatever its size.
-/

namespace AuditChain.Json

open Text

/-- A number. -/
inductive Number where
  /-- An integer of 64 bits that is not negative. -/
  | natural (n : UInt64)
  /-- The integer `-n`, where `n` is from one to `2 ^ 63`. -/
  | negative (n : Nat)
  /-- A floating-point number. -/
  | float (x : Float)

/-- The text of a number. -/
def Number.text : Number → String
  | .natural n => toString n.toNat
  | .negative n => "-" ++ toString n
  | .float x => Decimal.text x

/-- Why a text is no JSON. -/
inductive Defect where
  /-- A character stands where it cannot. -/
  | malformed
  /-- The text ends too early. -/
  | unfinished
  deriving DecidableEq, Repr

/-- The greatest significand. -/
def maxSignificand : Nat := 18446744073709551615

/-- Digits gathered in a significand as long as they fit, and the text from the first digit on that
does not. -/
def gather (significand : Nat) : List Char → Nat × List Char
  | [] => (significand, [])
  | c :: s =>
    if isDigit c then
      let n := 10 * significand + digitValue c
      if n ≤ maxSignificand then gather n s else (significand, c :: s)
    else (significand, c :: s)

/-- The number of digits that a text begins with, and what follows them. -/
def digitRun (s : List Char) : Nat × List Char :=
  ((s.takeWhile isDigit).length, s.dropWhile isDigit)

/-- The greatest power of ten by which a number is scaled at a time. -/
def maxPower : Nat := 308

/-- The positive number `x · 10 ^ exponent`, rounded at each step; an overflow is a defect.
A number that is too small for the powers of ten is scaled down in steps, each of which brings
the exponent nearer to zero. -/
def scale (x : Float) (exponent : Int) : Except Defect Float :=
  if 0 ≤ exponent then
    if exponent ≤ maxPower then
      let y := x * Float.ofScientific 1 false exponent.toNat
      if y.isInf then .error .malformed else .ok y
    else if x == 0 then .ok x else .error .malformed
  else if _h : exponent < -maxPower then
    if x == 0 then .ok x else scale (x / Float.ofScientific 1 false maxPower) (exponent + maxPower)
  else .ok (x / Float.ofScientific 1 false exponent.natAbs)
termination_by exponent.natAbs
decreasing_by unfold maxPower at *; omega

/-- The floating-point number of a sign, a significand and an exponent. -/
def assemble (isNegative : Bool) (significand : Nat) (exponent : Int) : Except Defect Number :=
  match scale (UInt64.ofNat significand).toFloat exponent with
  | .ok x => .ok (.float (if isNegative then -x else x))
  | .error e => .error e

/-- The greatest exponent that is looked at. -/
def maxExponent : Nat := 2147483647

/-- Reads what follows the letter of an exponent. -/
def readExponent (isNegative : Bool) (significand : Nat) (before : Int) (s : List Char) :
    Except Defect (Number × List Char) :=
  let (sign, s) : Int × List Char := match s with
    | '+' :: s => (1, s)
    | '-' :: s => (-1, s)
    | s => (1, s)
  match s with
  | [] => .error .unfinished
  | c :: _ =>
    if !isDigit c then .error .malformed
    else
      let e := valueOf (s.takeWhile isDigit)
      let rest := s.dropWhile isDigit
      if e ≤ maxExponent then
        (assemble isNegative significand (before + sign * e)).map fun n => (n, rest)
      else if significand ≠ 0 ∧ sign = 1 then .error .malformed
      else .ok (.float (if isNegative then -0.0 else 0.0), rest)

/-- Reads what follows the point of a number, of which digits worth `10 ^ before` were dropped. -/
def readFraction (isNegative : Bool) (significand : Nat) (before : Nat) (s : List Char) :
    Except Defect (Number × List Char) :=
  let (gathered, rest) := gather significand s
  let places := s.length - rest.length
  let (dropped, rest) := digitRun rest
  if places + dropped = 0 then
    .error (if rest.isEmpty then .unfinished else .malformed)
  else
    let exponent : Int := (before : Int) - places
    match rest with
    | 'e' :: rest => readExponent isNegative gathered exponent rest
    | 'E' :: rest => readExponent isNegative gathered exponent rest
    | rest => (assemble isNegative gathered exponent).map fun n => (n, rest)

/-- The integer of a sign and a significand.  Minus zero and what does not fit are floating-point
numbers. -/
def integer (isNegative : Bool) (significand : Nat) : Number :=
  if !isNegative then .natural (UInt64.ofNat significand)
  else if 0 < significand ∧ significand ≤ 9223372036854775808 then .negative significand
  else .float (-(UInt64.ofNat significand).toFloat)

/-- Reads a number whose sign has been read. -/
def readUnsigned (isNegative : Bool) (s : List Char) : Except Defect (Number × List Char) :=
  match s with
  | [] => .error .unfinished
  | c :: rest =>
    if !isDigit c then .error .malformed
    else if c = '0' ∧ (rest.head?.map isDigit).getD false then .error .malformed
    else
      let (significand, rest) := gather 0 s
      let (dropped, rest) := digitRun rest
      match rest with
      | '.' :: rest => readFraction isNegative significand dropped rest
      | 'e' :: rest => readExponent isNegative significand dropped rest
      | 'E' :: rest => readExponent isNegative significand dropped rest
      | rest =>
        if dropped = 0 then .ok (integer isNegative significand, rest)
        else (assemble isNegative significand dropped).map fun n => (n, rest)

/-- Reads a number from its sign or its first digit on. -/
def readNumber : List Char → Except Defect (Number × List Char)
  | '-' :: s => readUnsigned true s
  | s => readUnsigned false s

/-! ### Passing over -/

/-- One or more digits. -/
def skipDigits (s : List Char) : Except Defect (List Char) :=
  if (s.head?.map isDigit).getD false then .ok (s.dropWhile isDigit) else .error .malformed

/-- Passes over an exponent, if there is one. -/
def skipExponent : List Char → Except Defect (List Char)
  | c :: s =>
    if c = 'e' ∨ c = 'E' then
      match s with
      | '+' :: s => skipDigits s
      | '-' :: s => skipDigits s
      | s => skipDigits s
    else .ok (c :: s)
  | [] => .ok []

/-- Passes over a number from its sign or its first digit on, whatever its size. -/
def skipNumber (s : List Char) : Except Defect (List Char) :=
  let body := match s with
    | '-' :: s => s
    | s => s
  match skipDigits body with
  | .error e => .error e
  | .ok rest =>
    if body.head? = some '0' ∧ (body.tail.head?.map isDigit).getD false then .error .malformed
    else
      match rest with
      | '.' :: rest => (skipDigits rest).bind skipExponent
      | rest => skipExponent rest

end AuditChain.Json
