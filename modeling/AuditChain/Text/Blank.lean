/-!
# White space

The characters of the Unicode property `White_Space`, and the functions that skip them.

## Main definitions

* `Text.isBlank` — the property, as a test on one character.
* `Text.skipBlanks` — a text without the white space it begins with.
-/

namespace AuditChain.Text

/-- The white space of Unicode: the ASCII controls from tab to carriage return, the blank, and
the nineteen characters beyond ASCII that carry the property. -/
def isBlank (c : Char) : Bool :=
  let n := c.toNat
  (0x09 ≤ n && n ≤ 0x0D) || n == 0x20 || n == 0x85 || n == 0xA0 || n == 0x1680
    || (0x2000 ≤ n && n ≤ 0x200A) || n == 0x2028 || n == 0x2029 || n == 0x202F
    || n == 0x205F || n == 0x3000

/-- A text without the white space it begins with. -/
def skipBlanks (s : List Char) : List Char :=
  s.dropWhile isBlank

@[simp] theorem skipBlanks_nil : skipBlanks [] = [] := rfl

theorem skipBlanks_cons_of_not_blank {c : Char} {s : List Char} (h : isBlank c = false) :
    skipBlanks (c :: s) = c :: s := by
  simp [skipBlanks, h]

end AuditChain.Text
