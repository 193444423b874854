import AuditChain.Decimal.Nearest
import AuditChain.Text.Hex
import AuditChain.Text.Digits
import AuditChain.Time.Date
import AuditChain.Toml.Value

/-!
# Keys, texts, numbers and instants of settings documents

The parts of a document without parts of their own.  Each reader returns the rest of the text, or
nothing if the text does not begin with what is read.

## Main definitions

* `Toml.readBasic`, `Toml.readLiteral` and their forms of several lines — texts.
* `Toml.readKey` — keys, dotted or not.
* `Toml.readInstant`, `Toml.readFraction`, `Toml.readInteger` — dates and numbers.
-/

namespace AuditChain.Toml

open Text

/-- A reader of a part of a document. -/
abbrev Reader (α : Type) := List Char → Option (α × List Char)

/-! ### Space, comments and lines -/

/-- The space within a line. -/
def isSpace (c : Char) : Bool := c == ' ' || c == '\t'

/-- A text without the space it begins with. -/
def skipSpace (s : List Char) : List Char := s.dropWhile isSpace

/-- A character that may stand in a comment, and in the texts that need no escapes. -/
def isPlain (c : Char) : Bool :=
  c == '\t' || (0x20 ≤ c.toNat && c.toNat ≤ 0x7E) || 0x80 ≤ c.toNat

/-- A text without the comment it begins with. -/
def skipComment : List Char → List Char
  | '#' :: s => s.dropWhile isPlain
  | s => s

/-- The rest of a text that begins with the end of a line. -/
def newline? : List Char → Option (List Char)
  | '\n' :: s => some s
  | '\r' :: '\n' :: s => some s
  | _ => none

/-- A text without the space, the comments and the ends of lines it begins with; `fuel` bounds
their number. -/
def skipLines : (fuel : Nat) → List Char → List Char
  | 0, s => s
  | fuel + 1, s =>
    let s := skipComment (skipSpace s)
    match newline? s with
    | some s => skipLines fuel s
    | none => s

/-! ### Texts -/

/-- The character of an escape of four or eight hexadecimal digits. -/
def ofCode? (digits : List Char) : Option Char := do
  let values ← digits.mapM hexValue?
  let n := values.foldl (fun n d => 16 * n + d) 0
  if n < 0xD800 ∨ (0xDFFF < n ∧ n < 0x110000) then some (Char.ofNat n) else none

/-- Reads an escape after its backslash. -/
def readEscape : Reader Char
  | 'b' :: s => some ('\x08', s)
  | 't' :: s => some ('\t', s)
  | 'n' :: s => some ('\n', s)
  | 'f' :: s => some ('\x0c', s)
  | 'r' :: s => some ('\r', s)
  | '"' :: s => some ('"', s)
  | '\\' :: s => some ('\\', s)
  | 'u' :: s =>
    if (s.take 4).length = 4 then (ofCode? (s.take 4)).map fun c => (c, s.drop 4) else none
  | 'U' :: s =>
    if (s.take 8).length = 8 then (ofCode? (s.take 8)).map fun c => (c, s.drop 8) else none
  | _ => none

/-- Reads a text of one line after its quotation mark; `acc` holds its characters, the last
first. -/
def readBasic : (fuel : Nat) → (acc : List Char) → Reader String
  | 0, _, _ => none
  | fuel + 1, acc, s =>
    match s with
    | '"' :: s => some (String.ofList acc.reverse, s)
    | '\\' :: s => (readEscape s).bind fun (c, s) => readBasic fuel (c :: acc) s
    | c :: s => if isPlain c then readBasic fuel (c :: acc) s else none
    | [] => none

/-- Reads a text without escapes after its apostrophe. -/
def readLiteral (s : List Char) : Option (String × List Char) :=
  let body := s.takeWhile fun c => isPlain c && c != '\''
  match s.drop body.length with
  | '\'' :: rest => some (String.ofList body, rest)
  | _ => none

/-- The number of equal marks that a text begins with. -/
def countMarks (mark : Char) (s : List Char) : Nat :=
  (s.takeWhile fun c => c == mark).length

/-- A text without the space and the ends of lines it begins with; `fuel` bounds their number. -/
def skipEmptyLines : (fuel : Nat) → List Char → List Char
  | 0, s => s
  | fuel + 1, s =>
    match newline? (skipSpace s) with
    | some s => skipEmptyLines fuel s
    | none => skipSpace s

/-- What follows a backslash at the end of a line, which takes away the space and the empty lines
after it. -/
def skipFolded? (s : List Char) : Option (List Char) :=
  (newline? (skipSpace s)).map fun s => skipEmptyLines s.length s

/-- Reads a text of several lines after its three marks.  Three marks end it, and up to two more of
them before the end belong to it. -/
def readLong (mark : Char) (escapes : Bool) : (fuel : Nat) → (acc : List Char) → Reader String
  | 0, _, _ => none
  | fuel + 1, acc, s =>
    let marks := countMarks mark s
    if 3 ≤ marks then
      let own := min (marks - 3) 2
      some (String.ofList (List.replicate own mark ++ acc).reverse, s.drop (3 + own))
    else
      match s with
      | [] => none
      | c :: rest =>
        if c == '\\' && escapes then
          match skipFolded? rest with
          | some s => readLong mark escapes fuel acc s
          | none => (readEscape rest).bind fun (c, s) => readLong mark escapes fuel (c :: acc) s
        else
          match newline? s with
          | some s => readLong mark escapes fuel ('\n' :: acc) s
          | none => if isPlain c then readLong mark escapes fuel (c :: acc) rest else none

/-- Reads a text from its first mark on. -/
def readText (s : List Char) : Option (String × List Char) :=
  let long (mark : Char) (s : List Char) : Option (String × List Char) :=
    readLong mark (mark == '"') (s.length + 1) [] ((newline? s).getD s)
  match s with
  | '"' :: '"' :: '"' :: s => long '"' s
  | '\'' :: '\'' :: '\'' :: s => long '\'' s
  | '"' :: s => readBasic (s.length + 1) [] s
  | '\'' :: s => readLiteral s
  | _ => none

/-! ### Keys -/

/-- A character of a key that stands without marks. -/
def isBare (c : Char) : Bool :=
  ('a' ≤ c && c ≤ 'z') || ('A' ≤ c && c ≤ 'Z') || isDigit c || c == '-' || c == '_'

/-- Reads one part of a key. -/
def readSimpleKey (s : List Char) : Option (String × List Char) :=
  match s with
  | '"' :: s => readBasic (s.length + 1) [] s
  | '\'' :: s => readLiteral s
  | s =>
    let name := s.takeWhile isBare
    if name.isEmpty then none else some (String.ofList name, s.drop name.length)

/-- Reads a key; its parts are joined by dots, with space around them.  The space after the key is
taken away. -/
def readKeyWith : (fuel : Nat) → Reader (List String)
  | 0, _ => none
  | fuel + 1, s =>
    (readSimpleKey (skipSpace s)).bind fun (name, s) =>
      match skipSpace s with
      | '.' :: s => (readKeyWith fuel s).map fun (names, s) => (name :: names, s)
      | s => some ([name], s)

/-- A key has fewer parts than this. -/
def maxParts : Nat := 80

/-- Reads a key. -/
def readKey (s : List Char) : Option (List String × List Char) :=
  (readKeyWith (s.length + 1) s).bind fun (names, s) =>
    if names.length < maxParts then some (names, s) else none

/-! ### Numbers -/

/-- Reads digits with single underscores between them. -/
def readRunWith (isDigit : Char → Bool) : (fuel : Nat) → (acc : List Char) → Reader (List Char)
  | 0, _, _ => none
  | fuel + 1, acc, s =>
    let digits := s.takeWhile isDigit
    if digits.isEmpty then none
    else
      let acc := acc ++ digits
      match s.drop digits.length with
      | '_' :: rest => readRunWith isDigit fuel acc rest
      | rest => some (acc, rest)

/-- Reads digits with single underscores between them. -/
def readRun (isDigit : Char → Bool) (s : List Char) : Option (List Char × List Char) :=
  readRunWith isDigit (s.length + 1) [] s

/-- The value of digits of a base. -/
def valueIn (base : Nat) (digits : List Char) : Nat :=
  digits.foldl (fun n c => base * n + (hexValue? c).getD 0) 0

/-- An integer within the bounds of 64 bits with a sign. -/
def bounded (n : Int) : Option Int :=
  if -9223372036854775808 ≤ n ∧ n ≤ 9223372036854775807 then some n else none

/-- Reads an optional sign; minus one stands for a minus. -/
def readSign : List Char → Int × List Char
  | '+' :: s => (1, s)
  | '-' :: s => (-1, s)
  | s => (1, s)

/-- Reads decimal digits without a zero at their head, or one zero. -/
def readDecimal (s : List Char) : Option (List Char × List Char) :=
  match s with
  | '0' :: s => some (['0'], s)
  | s => readRun isDigit s

/-- Reads an integer: hexadecimal, octal, binary, or decimal with an optional sign. -/
def readInteger (s : List Char) : Option (Int × List Char) :=
  let inBase (base : Nat) (isDigit : Char → Bool) (s : List Char) : Option (Int × List Char) := do
    let (digits, s) ← readRun isDigit s
    let n ← bounded (valueIn base digits)
    return (n, s)
  match s with
  | '0' :: 'x' :: s => inBase 16 (fun c => (hexValue? c).isSome) s
  | '0' :: 'o' :: s => inBase 8 (fun c => '0' ≤ c && c ≤ '7') s
  | '0' :: 'b' :: s => inBase 2 (fun c => c == '0' || c == '1') s
  | s => do
    let (sign, s) := readSign s
    let (digits, s) ← readDecimal s
    let n ← bounded (sign * valueIn 10 digits)
    return (n, s)

/-- Reads the exponent of a number after its letter. -/
def readExponent (s : List Char) : Option (Int × List Char) := do
  let (sign, s) := readSign s
  let (digits, s) ← readRun isDigit s
  return (sign * valueOf digits, s)

/-- Reads an exponent if its letter is there. -/
def readOptionalExponent (s : List Char) : Option (Int × List Char) :=
  match s with
  | 'e' :: s => readExponent s
  | 'E' :: s => readExponent s
  | s => some (0, s)

/-- Reads the digits of a number with a point, an exponent, or both. -/
def readFractionDigits (s : List Char) : Option (Decimal × List Char) := do
  let (whole, s) ← readDecimal s
  match s with
  | '.' :: s =>
    let (places, s) ← readRun isDigit s
    let (exponent, s) ← readOptionalExponent s
    return (⟨valueOf (whole ++ places), exponent - places.length⟩, s)
  | c :: _ =>
    if c = 'e' ∨ c = 'E' then
      let (exponent, s) ← readOptionalExponent s
      return (⟨valueOf whole, exponent⟩, s)
    else none
  | [] => none

/-- Reads a number with a point, an exponent, or both, or the name of one that is no number or has
no bound.  Digits cannot denote a number above all bounds; below all bounds they can. -/
def readFraction (s : List Char) : Option (List Char) := do
  let (sign, s) := readSign s
  match s with
  | 'i' :: 'n' :: 'f' :: s => return s
  | 'n' :: 'a' :: 'n' :: s => return s
  | s =>
    let (d, s) ← readFractionDigits s
    if 0 < sign ∧ d.nearest = .beyond then none else some s

/-! ### Instants -/

/-- Reads a number of exactly so many digits within bounds. -/
def readField (places lo hi : Nat) (s : List Char) : Option (Nat × List Char) :=
  let digits := s.take places
  if digits.length = places ∧ digits.all isDigit ∧ lo ≤ valueOf digits ∧ valueOf digits ≤ hi then
    some (valueOf digits, s.drop places)
  else none

/-- Demands a mark. -/
def demand (mark : Char) : List Char → Option (List Char)
  | c :: s => if c = mark then some s else none
  | [] => none

/-- Reads a date. -/
def readDate (s : List Char) : Option (List Char) := do
  let (year, s) ← readField 4 0 9999 s
  let s ← demand '-' s
  let (month, s) ← readField 2 1 12 s
  let s ← demand '-' s
  let (day, s) ← readField 2 1 31 s
  if day ≤ daysInMonth year month then some s else none

/-- Reads a time of day with an optional fraction of the second. -/
def readTime (s : List Char) : Option (List Char) := do
  let (_, s) ← readField 2 0 23 s
  let s ← demand ':' s
  let (_, s) ← readField 2 0 59 s
  let s ← demand ':' s
  let (_, s) ← readField 2 0 60 s
  match s with
  | '.' :: c :: rest => if isDigit c then some (rest.dropWhile isDigit) else some s
  | s => some s

/-- Reads an offset from universal time, if there is one. -/
def readOffset (s : List Char) : List Char :=
  let numeric (rest : List Char) : List Char :=
    ((readField 2 0 23 rest).bind fun (_, rest) => (demand ':' rest).bind fun rest =>
      (readField 2 0 59 rest).map Prod.snd).getD s
  match s with
  | 'Z' :: s => s
  | 'z' :: s => s
  | '+' :: rest => numeric rest
  | '-' :: rest => numeric rest
  | s => s

/-- Reads a date, a time of day, or a date with a time of day and perhaps an offset. -/
def readInstant (s : List Char) : Option (List Char) :=
  match readDate s with
  | some rest =>
    match rest with
    | c :: after =>
      if c = 'T' ∨ c = 't' ∨ c = ' ' then
        match readTime after with
        | some rest => some (readOffset rest)
        | none => some rest
      else some rest
    | [] => some []
  | none => readTime s

end AuditChain.Toml
