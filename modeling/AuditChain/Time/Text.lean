import AuditChain.Text.Blank
import AuditChain.Text.Digits
import AuditChain.Text.Utf8
import AuditChain.Time.Timestamp

/-!
# The text of an instant

An instant is written as `YYYY-MM-DDTHH:MM:SS`, then a point and a fraction of the second, then
its distance from universal time.  A year outside `0` to `9999` has a sign.  Two instants that a
clock shows alike have the same texts.

Two readers accept such texts.  The *lenient* one takes what people write: blanks between the
parts, fields of one digit, any number of fraction digits, and a named or signed offset.  The
*strict* one takes the one layout of fixed columns.  Both report the first fault they meet.

## Main definitions

* `Timestamp.canonical` — nine fraction digits and `Z`: one text per instant that a clock can show.
* `Timestamp.compact` — no more fraction digits than needed, in threes, and `Z`.
* `Timestamp.compactOffset` — the same with `+00:00`.
* `TimestampFault` — why a text denotes no instant.
* `Timestamp.readLenient`, `Timestamp.readStrict` — the two readers.
-/

namespace AuditChain

open Text

/-! ### Writing -/

/-- A year: four digits from `0` to `9999`, otherwise a sign and at least four digits. -/
def Date.yearText (year : Int) : List Char :=
  if 0 ≤ year ∧ year ≤ 9999 then fixed 4 year.toNat
  else (if year < 0 then '-' else '+') :: padded 4 year.natAbs

/-- A date as year, month and day, joined by hyphens. -/
def Date.text (d : Date) : List Char :=
  Date.yearText d.year ++ '-' :: fixed 2 d.month ++ '-' :: fixed 2 d.day

/-- Hour, minute and second, joined by colons. -/
def TimeOfDay.text (t : TimeOfDay) : List Char :=
  fixed 2 t.hour ++ ':' :: fixed 2 t.minute ++ ':' :: fixed 2 t.second

/-- Date and time without fraction and offset. -/
def Timestamp.stem (t : Timestamp) : List Char :=
  t.date.text ++ 'T' :: t.time.text

/-- The fraction of a second in none, three, six or nine digits, the fewest that are exact. -/
def TimeOfDay.fraction (t : TimeOfDay) : List Char :=
  if t.subsecond = 0 then []
  else if t.subsecond % 1000000 = 0 then '.' :: fixed 3 (t.subsecond / 1000000)
  else if t.subsecond % 1000 = 0 then '.' :: fixed 6 (t.subsecond / 1000)
  else '.' :: fixed 9 t.subsecond

namespace Timestamp

/-- The canonical text: nine fraction digits, then `Z`. -/
def canonicalChars (t : Timestamp) : List Char :=
  t.stem ++ '.' :: fixed 9 t.time.subsecond ++ ['Z']

/-- The canonical text of an instant. -/
def canonical (t : Timestamp) : String :=
  String.ofList t.canonicalChars

/-- The compact text: as few fraction digits as are exact, then `Z`. -/
def compactChars (t : Timestamp) : List Char :=
  t.stem ++ t.time.fraction ++ ['Z']

/-- The compact text of an instant. -/
def compact (t : Timestamp) : String :=
  String.ofList t.compactChars

/-- The compact text with a numeric offset in place of `Z`. -/
def compactOffset (t : Timestamp) : String :=
  String.ofList (t.stem ++ t.time.fraction ++ "+00:00".toList)

end Timestamp

/-! ### Faults -/

/-- Why a text denotes no instant. -/
inductive TimestampFault where
  /-- The text ends where something is needed. -/
  | premature
  /-- A character stands where it cannot. -/
  | invalid
  /-- A field is outside its range, or there is no such date. -/
  | outOfRange
  /-- Moving to universal time leaves the supported years. -/
  | unrepresentable
  /-- The text goes on after the instant. -/
  | trailing
  deriving DecidableEq, Repr

/-- The wording of a fault. -/
def TimestampFault.message : TimestampFault → String
  | .premature => "premature end of input"
  | .invalid => "input contains invalid characters"
  | .outOfRange => "input is out of range"
  | .unrepresentable => "no possible date and time matching input"
  | .trailing => "trailing input"

namespace Timestamp

/-! ### Parts that both readers share

A reader of a part returns its value and the rest of the text. -/

/-- Demands one given character. -/
def readMark (c : Char) : List Char → Except TimestampFault (List Char)
  | [] => .error .premature
  | d :: s => if d = c then .ok s else .error .invalid

/-- A run of one or more digits, cut after `limit` of them if there is a limit. -/
def readDigits (limit : Option Nat) (s : List Char) :
    Except TimestampFault (List Char × List Char) :=
  match s with
  | [] => .error .premature
  | _ :: _ =>
    let window := match limit with
      | some n => s.take n
      | none => s
    let digits := window.takeWhile isDigit
    if digits.isEmpty then .error .invalid else .ok (digits, s.drop digits.length)

/-- A fraction of a second after a point: its first nine digits count, the others are passed
over.  Without a point the fraction is zero. -/
def readFraction (s : List Char) : Except TimestampFault (Nat × List Char) :=
  match s with
  | '.' :: s => do
    let (digits, rest) ← readDigits (some 9) s
    return (valueOf digits * Nat.pow 10 (9 - digits.length), rest.dropWhile isDigit)
  | s => .ok (0, s)

/-- The two characters of a field of two columns; a text of fewer than two octets ends too
early. -/
def readPair (s : List Char) : Except TimestampFault ((Char × Char) × List Char) :=
  if octets s < 2 then .error .premature
  else match s with
    | a :: b :: rest => .ok ((a, b), rest)
    | _ => .error .invalid

/-- The offset from universal time in minutes: `Z` of either case, or a sign, two digits of
hours, a separator, and two digits of minutes below sixty.  The minus sign may be the hyphen or
the sign of mathematics. -/
def readOffset (separator : List Char → Except TimestampFault (List Char)) (s : List Char) :
    Except TimestampFault (Int × List Char) := do
  let signed (sign : Int) (s : List Char) : Except TimestampFault (Int × List Char) := do
    let ((h₁, h₂), s) ← readPair s
    unless isDigit h₁ && isDigit h₂ do throw .invalid
    let s ← separator s
    let ((m₁, m₂), s) ← readPair s
    unless isDigit m₁ && isDigit m₂ do throw .invalid
    if 6 ≤ digitValue m₁ then throw .outOfRange
    return (sign * (60 * valueOf [h₁, h₂] + valueOf [m₁, m₂] : Nat), s)
  match s with
  | [] => throw .premature
  | 'Z' :: s => return (0, s)
  | 'z' :: s => return (0, s)
  | '+' :: s => signed 1 s
  | '-' :: s => signed (-1) s
  | '\u2212' :: s => signed (-1) s
  | _ :: _ => throw .invalid

/-- An offset is below a day in either direction. -/
def IsOffset (offset : Int) : Prop :=
  -1440 < offset ∧ offset < 1440

instance (offset : Int) : Decidable (IsOffset offset) :=
  inferInstanceAs (Decidable (_ ∧ _))

/-- The instant of a local date and time at an offset. -/
def assemble (date : Date) (time : TimeOfDay) (offset : Int) : Except TimestampFault Timestamp :=
  if IsOffset offset then
    match ofLocal? date time offset with
    | some t => .ok t
    | none => .error .unrepresentable
  else .error .outOfRange

/-! ### The lenient reader -/

/-- A number that must lie between `lo` and `hi`, after blanks, of at most two digits. -/
def readField (lo hi : Nat) (s : List Char) : Except TimestampFault (Nat × List Char) := do
  let (digits, s) ← readDigits (some 2) (skipBlanks s)
  let n := valueOf digits
  if lo ≤ n ∧ n ≤ hi then return (n, s) else throw .outOfRange

/-- A year after blanks: up to four digits, or a sign and any number of digits.  It must fit a
signed word of 32 bits; whether the date is supported is decided later. -/
def readYear (s : List Char) : Except TimestampFault (Int × List Char) := do
  let bounded (year : Int) (s : List Char) : Except TimestampFault (Int × List Char) :=
    if -2147483648 ≤ year ∧ year ≤ 2147483647 then .ok (year, s) else .error .outOfRange
  match skipBlanks s with
  | '-' :: s => do
    let (digits, s) ← readDigits none s
    bounded (-(valueOf digits : Int)) s
  | '+' :: s => do
    let (digits, s) ← readDigits none s
    bounded (valueOf digits) s
  | s => do
    let (digits, s) ← readDigits (some 4) s
    bounded (valueOf digits) s

/-- The letter or blank between date and time. -/
def readBetween : List Char → Except TimestampFault (List Char)
  | [] => .error .premature
  | c :: s => if c = 'T' ∨ c = 't' ∨ c = ' ' then .ok s else .error .invalid

/-- The name of universal time, in any case. -/
def dropUtc? : List Char → Option (List Char)
  | u :: t :: c :: s =>
    if u.toUpper = 'U' ∧ t.toUpper = 'T' ∧ c.toUpper = 'C' then some s else none
  | _ => none

/-- Reads the text of an instant leniently. -/
def readLenientChars (s : List Char) : Except TimestampFault Timestamp := do
  let (year, s) ← readYear s
  let s ← readMark '-' (skipBlanks s)
  let (month, s) ← readField 1 12 s
  let s ← readMark '-' (skipBlanks s)
  let (day, s) ← readField 1 31 s
  let s ← readBetween s
  let (hour, s) ← readField 0 23 s
  let s ← readMark ':' (skipBlanks s)
  let (minute, s) ← readField 0 59 s
  let s ← readMark ':' (skipBlanks s)
  let (second, s) ← readField 0 60 s
  let (nanos, s) ← readFraction s
  let s := skipBlanks s
  let (offset, s) ← match dropUtc? s with
    | some s => pure (0, s)
    | none => readOffset (fun s => .ok (s.dropWhile fun c => c == ':' || isBlank c)) s
  unless (skipBlanks s).isEmpty do throw .trailing
  let some date := Date.of? year month day | throw .outOfRange
  let some time := TimeOfDay.of? hour minute second nanos | throw .outOfRange
  assemble date time offset

/-- Reads the text of an instant leniently. -/
def readLenient (s : String) : Except TimestampFault Timestamp :=
  readLenientChars s.toList

/-! ### The strict reader -/

/-- Exactly so many digits. -/
def readColumns (places : Nat) (s : List Char) : Except TimestampFault (Nat × List Char) :=
  let digits := s.take places
  if digits.length = places ∧ digits.all isDigit then .ok (valueOf digits, s.drop places)
  else .error .invalid

/-- Reads the text of an instant in the layout of fixed columns.  A text that is too short for
date and time is refused as such before anything else is looked at. -/
def readStrictChars (s : List Char) : Except TimestampFault Timestamp := do
  if octets s < 19 then throw .premature
  let mark (c : Char) (s : List Char) : Except TimestampFault (List Char) :=
    match s with
    | d :: s => if d = c then .ok s else .error .invalid
    | [] => .error .invalid
  let (year, s) ← readColumns 4 s
  let s ← mark '-' s
  let (month, s) ← readColumns 2 s
  let s ← mark '-' s
  let (day, s) ← readColumns 2 s
  let some date := Date.of? year month day | throw .outOfRange
  let s ← readBetween s
  let (hour, s) ← readColumns 2 s
  let s ← mark ':' s
  let (minute, s) ← readColumns 2 s
  let s ← mark ':' s
  let (second, s) ← readColumns 2 s
  let (nanos, s) ← readFraction s
  let some time := TimeOfDay.of? hour minute second nanos | throw .outOfRange
  let (offset, s) ← readOffset (readMark ':') s
  unless s.isEmpty do throw .trailing
  assemble date time offset

/-- Reads the text of an instant in the layout of fixed columns. -/
def readStrict (s : String) : Except TimestampFault Timestamp :=
  readStrictChars s.toList

end Timestamp

end AuditChain
