/-!
# Texts within texts

## Main definitions

* `Text.occursIn` — one text stands somewhere within another.
-/

namespace AuditChain.Text

/-- The characters of `needle` stand in a row somewhere in a text. -/
def occursIn (needle : List Char) : List Char → Bool
  | [] => needle.isEmpty
  | c :: s => needle.isPrefixOf (c :: s) || occursIn needle s

@[simp] theorem occursIn_nil (needle : List Char) : occursIn needle [] = needle.isEmpty := rfl

end AuditChain.Text
