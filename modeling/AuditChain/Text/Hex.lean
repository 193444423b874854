/-!
# Hexadecimal text

Octets written as two lower case hexadecimal digits each.

## Main definitions

* `Text.hex` — the text of a list of octets.
* `Text.unhex?` — the octets of a text of hexadecimal digits.
-/

namespace AuditChain.Text

/-- The lower case hexadecimal digit of a value below sixteen. -/
def hexDigit (n : Nat) : Char :=
  Nat.digitChar (n % 16)

/-- The two hexadecimal digits of an octet, the higher first. -/
def hexOctet (b : UInt8) : List Char :=
  [hexDigit (b.toNat / 16), hexDigit b.toNat]

/-- Octets as hexadecimal text, in order. -/
def hex (bytes : List UInt8) : String :=
  String.ofList (bytes.flatMap hexOctet)

/-- The value of a hexadecimal digit of either case. -/
def hexValue? (c : Char) : Option Nat :=
  if '0' ≤ c ∧ c ≤ '9' then some (c.toNat - 48)
  else if 'a' ≤ c ∧ c ≤ 'f' then some (c.toNat - 87)
  else if 'A' ≤ c ∧ c ≤ 'F' then some (c.toNat - 55)
  else none

/-- The octets that pairs of hexadecimal digits denote. -/
def unhexChars? : List Char → Option (List UInt8)
  | [] => some []
  | a :: b :: rest => do
    let hi ← hexValue? a
    let lo ← hexValue? b
    let bytes ← unhexChars? rest
    return UInt8.ofNat (16 * hi + lo) :: bytes
  | [_] => none

/-- The octets of a hexadecimal text. -/
def unhex? (s : String) : Option (List UInt8) :=
  unhexChars? s.toList

end AuditChain.Text
