import AuditChain.Json.Number
import AuditChain.Text.Hex
import AuditChain.Text.Utf8

/-!
# JSON strings

A string stands between quotation marks.  A backslash introduces an escape: of one letter, or `u`
and the four hexadecimal digits of a unit of UTF-16, of which a pair of surrogates denotes one
character.  Control characters cannot stand in a string as they are.

## Main definitions

* `Json.quoted` — a text as a string.
* `Json.readQuoted` — reads a string after its first quotation mark.
* `Json.skipQuoted` — passes over a string, where surrogates need not be paired.
-/

namespace AuditChain.Json

open Text

/-- A character within a string: only what must be escaped is. -/
def quotedChar (c : Char) : List Char :=
  if c = '"' then ['\\', '"']
  else if c = '\\' then ['\\', '\\']
  else if c = '\x08' then ['\\', 'b']
  else if c = '\t' then ['\\', 't']
  else if c = '\n' then ['\\', 'n']
  else if c = '\x0c' then ['\\', 'f']
  else if c = '\r' then ['\\', 'r']
  else if c < ' ' then ['\\', 'u', '0', '0', hexDigit (c.toNat / 16), hexDigit c.toNat]
  else [c]

/-- A text as a string, from quotation mark to quotation mark. -/
def quoted (s : String) : List Char :=
  '"' :: s.toList.flatMap quotedChar ++ ['"']

/-- The value of four hexadecimal digits. -/
def fourHex? (a b c d : Char) : Option Nat := do
  let a ← hexValue? a
  let b ← hexValue? b
  let c ← hexValue? c
  let d ← hexValue? d
  return ((a * 16 + b) * 16 + c) * 16 + d

/-- The character that an escape of one letter denotes. -/
def ofLetter? : Char → Option Char
  | '"' => some '"'
  | '\\' => some '\\'
  | '/' => some '/'
  | 'b' => some '\x08'
  | 'f' => some '\x0c'
  | 'n' => some '\n'
  | 'r' => some '\r'
  | 't' => some '\t'
  | _ => none

/-- The defect of a text that has less than four characters where four hexadecimal digits are
needed: with four octets it is not the end that is at fault. -/
def fewDigits (s : List Char) : Defect :=
  if 4 ≤ octets s then .malformed else .unfinished

/-- The first unit of a pair of surrogates. -/
def isHigh (n : Nat) : Bool := 0xD800 ≤ n && n ≤ 0xDBFF

/-- The second unit of a pair of surrogates. -/
def isLow (n : Nat) : Bool := 0xDC00 ≤ n && n ≤ 0xDFFF

/-- The character of a pair of surrogates. -/
def paired (high low : Nat) : Char :=
  Char.ofNat (0x10000 + (high - 0xD800) * 0x400 + (low - 0xDC00))

/-- Reads a string after its first quotation mark; `acc` holds the characters so far, the last
first. -/
def readQuotedFrom (acc : List Char) : List Char → Except Defect (String × List Char)
  | [] => .error .unfinished
  | '"' :: s => .ok (String.ofList acc.reverse, s)
  | '\\' :: s =>
    match s with
    | [] => .error .unfinished
    | 'u' :: a :: b :: c :: d :: s =>
      match fourHex? a b c d with
      | none => .error .malformed
      | some n =>
        if isLow n then .error .malformed
        else if isHigh n then
          match s with
          | [] => .error .unfinished
          | ['\\'] => .error .unfinished
          | '\\' :: 'u' :: e :: f :: g :: h :: s =>
            match fourHex? e f g h with
            | none => .error .malformed
            | some m =>
              if isLow m then readQuotedFrom (paired n m :: acc) s else .error .malformed
          | '\\' :: 'u' :: s => .error (fewDigits s)
          | _ => .error .malformed
        else readQuotedFrom (Char.ofNat n :: acc) s
    | 'u' :: s => .error (fewDigits s)
    | e :: s =>
      match ofLetter? e with
      | some c => readQuotedFrom (c :: acc) s
      | none => .error .malformed
  | c :: s => if c < ' ' then .error .malformed else readQuotedFrom (c :: acc) s

/-- Reads a string after its first quotation mark. -/
def readQuoted (s : List Char) : Except Defect (String × List Char) :=
  readQuotedFrom [] s

/-- Passes over a string after its first quotation mark. -/
def skipQuoted : List Char → Except Defect (List Char)
  | [] => .error .unfinished
  | '"' :: s => .ok s
  | '\\' :: s =>
    match s with
    | [] => .error .unfinished
    | 'u' :: a :: b :: c :: d :: s =>
      if (fourHex? a b c d).isSome then skipQuoted s else .error .malformed
    | 'u' :: s => .error (fewDigits s)
    | e :: s => if (ofLetter? e).isSome then skipQuoted s else .error .malformed
  | c :: s => if c < ' ' then .error .malformed else skipQuoted s

end AuditChain.Json
