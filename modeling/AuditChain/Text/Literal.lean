import AuditChain.Text.Unseen

/-!
# Texts shown as literals

A text that a message shows to its reader stands between quotation marks, and a character that
would not be seen there is written as an escape.

## Main definitions

* `Text.literalChar` — a character as it stands there.
* `Text.literal` — a text between quotation marks.
-/

namespace AuditChain.Text

/-- A character within a literal. -/
def literalChar (c : Char) : List Char :=
  if c = '\t' then ['\\', 't']
  else if c = '\n' then ['\\', 'n']
  else if c = '\r' then ['\\', 'r']
  else if c = '\x00' then ['\\', '0']
  else if c = '"' then ['\\', '"']
  else if c = '\\' then ['\\', '\\']
  else if isUnseen c then '\\' :: 'u' :: '\x7b' :: Nat.toDigits 16 c.toNat ++ ['\x7d']
  else [c]

/-- A text between quotation marks. -/
def literal (s : String) : String :=
  String.ofList ('"' :: s.toList.flatMap literalChar ++ ['"'])

end AuditChain.Text
