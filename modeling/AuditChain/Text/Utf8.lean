/-!
# UTF-8 text

The octets of a text, and the reading of octets as text with the place and the length of the
first fault.

## Main definitions

* `Text.utf8`, `Text.octets` — the octets of a text, and their number.
* `Text.Utf8Fault` — where octets stop being UTF-8, and how many octets the fault spans.
* `Text.ofUtf8` — the text of well-formed octets, or the first fault.
* `Text.lossy` — the text of any octets.
-/

namespace AuditChain.Text

/-- The UTF-8 octets of a text. -/
def utf8 (s : String) : List UInt8 :=
  s.toUTF8.toList

/-- The number of octets that a text takes. -/
def octets (s : List Char) : Nat :=
  s.foldl (fun n c => n + c.utf8Size) 0

/-- The characters that make up the first `n` octets of a text.  There are none if the text is
shorter, or if a character lies across the cut. -/
def firstOctets? : (n : Nat) → List Char → Option (List Char)
  | 0, _ => some []
  | _ + 1, [] => none
  | n + 1, c :: s =>
    if c.utf8Size ≤ n + 1 then (firstOctets? (n + 1 - c.utf8Size) s).map (c :: ·) else none
termination_by n => n
decreasing_by
  have := c.utf8Size_pos
  omega

/-- The first fault of an octet string that is not UTF-8. -/
inductive Utf8Fault where
  /-- After `start` well-formed octets come `length` octets that begin no character. -/
  | malformed (length start : Nat)
  /-- After `start` well-formed octets the string ends inside a character. -/
  | truncated (start : Nat)
  deriving DecidableEq, Repr

/-- The wording of a fault. -/
def Utf8Fault.message : Utf8Fault → String
  | .malformed length start =>
    s!"invalid utf-8 sequence of {length} bytes from index {start}"
  | .truncated start => s!"incomplete utf-8 byte sequence from index {start}"

/-- How many continuation octets follow a first octet, and the bounds of the first of them;
`none` if no character begins with the octet. -/
def leadOctet (b : Nat) : Option (Nat × Nat × Nat) :=
  if b < 0x80 then some (0, 0x80, 0xBF)
  else if 0xC2 ≤ b ∧ b ≤ 0xDF then some (1, 0x80, 0xBF)
  else if b = 0xE0 then some (2, 0xA0, 0xBF)
  else if b = 0xED then some (2, 0x80, 0x9F)
  else if 0xE1 ≤ b ∧ b ≤ 0xEF then some (2, 0x80, 0xBF)
  else if b = 0xF0 then some (3, 0x90, 0xBF)
  else if 0xF1 ≤ b ∧ b ≤ 0xF3 then some (3, 0x80, 0xBF)
  else if b = 0xF4 then some (3, 0x80, 0x8F)
  else none

/-- The payload bits of a first octet that announces `more` continuation octets. -/
def leadBits (b more : Nat) : Nat :=
  match more with
  | 0 => b
  | 1 => b % 0x20
  | 2 => b % 0x10
  | _ => b % 0x08

/-- Reads octets as text.  `start` is where the present character began, `seen` how many of its
octets were read, `more` how many are still owed, of which the next lies between `lo` and `hi`,
and `code` the bits gathered so far; `acc` holds the characters before it, the last first. -/
def ofUtf8From (start seen more lo hi code : Nat) (acc : List Char) :
    List UInt8 → Except Utf8Fault String
  | [] => if more = 0 then .ok (String.ofList acc.reverse) else .error (.truncated start)
  | b :: rest =>
    if more = 0 then
      match leadOctet b.toNat with
      | none => .error (.malformed 1 start)
      | some (0, _, _) =>
        ofUtf8From (start + 1) 0 0 0x80 0xBF 0 (Char.ofNat b.toNat :: acc) rest
      | some (n, lo, hi) => ofUtf8From start 1 n lo hi (leadBits b.toNat n) acc rest
    else if lo ≤ b.toNat ∧ b.toNat ≤ hi then
      let code := code * 0x40 + b.toNat % 0x40
      if more = 1 then
        ofUtf8From (start + seen + 1) 0 0 0x80 0xBF 0 (Char.ofNat code :: acc) rest
      else
        ofUtf8From start (seen + 1) (more - 1) 0x80 0xBF code acc rest
    else
      .error (.malformed seen start)

/-- The text of well-formed octets, or the first fault. -/
def ofUtf8 (bytes : List UInt8) : Except Utf8Fault String :=
  ofUtf8From 0 0 0 0x80 0xBF 0 [] bytes

/-- The replacement character, which stands for what is no character. -/
def replacement : Char := '\ufffd'

/-- The text of octets with the replacement character for each fault in them; `fuel` bounds their
number. -/
def lossyWith : (fuel : Nat) → List UInt8 → List Char
  | 0, _ => []
  | fuel + 1, bytes =>
    match ofUtf8 bytes with
    | .ok s => s.toList
    | .error (.truncated start) => textBefore start bytes ++ [replacement]
    | .error (.malformed length start) =>
      textBefore start bytes ++ replacement :: lossyWith fuel (bytes.drop (start + length))
where
  /-- The characters of the first octets, which are well-formed. -/
  textBefore (start : Nat) (bytes : List UInt8) : List Char :=
    match ofUtf8 (bytes.take start) with
    | .ok s => s.toList
    | .error _ => []

/-- The text of octets, with the replacement character where they are none. -/
def lossy (bytes : List UInt8) : String :=
  String.ofList (lossyWith (bytes.length + 1) bytes)

end AuditChain.Text
