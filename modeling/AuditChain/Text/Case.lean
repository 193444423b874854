/-!
# Letter case

## Main definitions

* `Text.lower` — a text with its ASCII letters in lower case.
-/

namespace AuditChain.Text

/-- A text with its ASCII letters in lower case. -/
def lower (s : String) : String :=
  String.ofList (s.toList.map Char.toLower)

end AuditChain.Text
