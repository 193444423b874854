import AuditChain.Json.Value

/-!
# Taking values apart

## Main definitions

* `Json.Value.text?`, `Json.Value.word?`, … — a value as one of a known kind.
* `Json.Value.present?`, `Json.Value.textAt?`, `Json.Value.wordAt?` — a member that is there and says
  something.
* `Json.Value.sorted` — a value whose records have their members in the order of their names.
-/

namespace AuditChain.Json.Value

/-- The text that a value is. -/
def text? : Value → Option String
  | .text s => some s
  | _ => none

/-- The word of 64 bits that a value is. -/
def word? : Value → Option UInt64
  | .number (.natural n) => some n
  | _ => none

/-- The integer that a value is. -/
def integer? : Value → Option Int
  | .number (.natural n) => some n.toNat
  | .number (.negative n) => some (-n)
  | _ => none

/-- The truth value that a value is. -/
def boolean? : Value → Option Bool
  | .boolean b => some b
  | _ => none

/-- The items of a list. -/
def list? : Value → Option (List Value)
  | .list items => some items
  | _ => none

/-- The members of a record. -/
def record? : Value → Option (List (String × Value))
  | .record members => some members
  | _ => none

/-- A member that is there and is not nothing. -/
def present? (v : Value) (name : String) : Option Value :=
  match v.member? name with
  | some .null => none
  | m => m

/-- The text that a member is. -/
def textAt? (v : Value) (name : String) : Option String :=
  (v.present? name).bind text?

/-- The word of 64 bits that a member is. -/
def wordAt? (v : Value) (name : String) : Option UInt64 :=
  (v.present? name).bind word?

/-- A member put at the end of a record, in place of the ones of its name. -/
def setMember (v : Value) (name : String) (x : Value) : Value :=
  match v with
  | .record members => .record (members.filter (fun m => m.1 != name) ++ [(name, x)])
  | v => v

mutual

/-- A value whose records have their members in the order of their names. -/
def sorted : Value → Value
  | .record members => .record ((sortedMembers members).mergeSort fun a b => a.1 ≤ b.1)
  | .list items => .list (sortedItems items)
  | v => v

/-- The same of each item. -/
def sortedItems : List Value → List Value
  | [] => []
  | x :: xs => x.sorted :: sortedItems xs

/-- The same of each member. -/
def sortedMembers : List (String × Value) → List (String × Value)
  | [] => []
  | (name, x) :: members => (name, x.sorted) :: sortedMembers members

end

end AuditChain.Json.Value
