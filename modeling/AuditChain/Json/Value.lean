import AuditChain.Json.Quoted

/-!
# JSON values

Values as they are written, compactly or with one member a line, and as they are read when any
value will do.

## Main definitions

* `Json.Value` — a value; the members of a record keep their order.
* `Json.Value.compact`, `Json.Value.pretty` — the two layouts.
* `Json.Value.read` — the value that a text denotes.
* `Json.skipValue` — passes over a value.
-/

namespace AuditChain.Json

/-- A value. -/
inductive Value where
  /-- Nothing. -/
  | null
  /-- A truth value. -/
  | boolean (b : Bool)
  /-- A number. -/
  | number (n : Number)
  /-- A string. -/
  | text (s : String)
  /-- A list of values. -/
  | list (items : List Value)
  /-- Values under names. -/
  | record (members : List (String × Value))
  deriving Inhabited

namespace Value

/-- A natural number. -/
def nat (n : Nat) : Value :=
  .number (.natural (UInt64.ofNat n))

/-- A word of 64 bits. -/
def word (n : UInt64) : Value :=
  .number (.natural n)

/-- A value that may be absent. -/
def optional {α : Type} (f : α → Value) : Option α → Value
  | none => .null
  | some a => f a

/-! ### Writing -/

/-- The start of a line at a depth, if lines are broken at all. -/
def lineBreak (pretty : Bool) (depth : Nat) : List Char :=
  if pretty then '\n' :: List.replicate (2 * depth) ' ' else []

/-- What stands between a name and its value. -/
def colon (pretty : Bool) : List Char :=
  if pretty then [':', ' '] else [':']

mutual

/-- The text of a value at a depth. -/
def chars (pretty : Bool) (depth : Nat) : Value → List Char
  | .null => "null".toList
  | .boolean b => (if b then "true" else "false").toList
  | .number n => n.text.toList
  | .text s => quoted s
  | .list [] => ['[', ']']
  | .list (x :: xs) =>
    '[' :: lineBreak pretty (depth + 1) ++ chars pretty (depth + 1) x
      ++ itemChars pretty (depth + 1) xs ++ lineBreak pretty depth ++ [']']
  | .record [] => ['\x7b', '\x7d']
  | .record ((name, x) :: members) =>
    '\x7b' :: lineBreak pretty (depth + 1) ++ quoted name ++ colon pretty
      ++ chars pretty (depth + 1) x ++ memberChars pretty (depth + 1) members
      ++ lineBreak pretty depth ++ ['\x7d']

/-- The text of the items after the first one. -/
def itemChars (pretty : Bool) (depth : Nat) : List Value → List Char
  | [] => []
  | x :: xs =>
    ',' :: lineBreak pretty depth ++ chars pretty depth x ++ itemChars pretty depth xs

/-- The text of the members after the first one. -/
def memberChars (pretty : Bool) (depth : Nat) : List (String × Value) → List Char
  | [] => []
  | (name, x) :: members =>
    ',' :: lineBreak pretty depth ++ quoted name ++ colon pretty ++ chars pretty depth x
      ++ memberChars pretty depth members

end

/-- The text of a value without any blanks. -/
def compact (v : Value) : String :=
  String.ofList (v.chars false 0)

/-- The text of a value with one item or member a line. -/
def pretty (v : Value) : String :=
  String.ofList (v.chars true 0)

end Value

/-! ### Reading -/

/-- The four characters that may stand between the parts of a value. -/
def isSpace (c : Char) : Bool :=
  c == ' ' || c == '\n' || c == '\t' || c == '\r'

/-- A text without the space it begins with. -/
def skipSpace (s : List Char) : List Char :=
  s.dropWhile isSpace

/-- Demands the rest of a word. -/
def demand : (word : List Char) → List Char → Except Defect (List Char)
  | [], s => .ok s
  | _ :: _, [] => .error .unfinished
  | w :: word, c :: s => if w = c then demand word s else .error .malformed

/-- The start of the next item of a list, if there is one: the first item stands after the bracket,
the others after commas. -/
def nextItem (first : Bool) (s : List Char) : Except Defect (Option (List Char)) :=
  match skipSpace s with
  | [] => .error .unfinished
  | ']' :: _ => .ok none
  | c :: s =>
    if first then .ok (some (c :: s))
    else if c = ',' then
      match skipSpace s with
      | [] => .error .unfinished
      | ']' :: _ => .error .malformed
      | s => .ok (some s)
    else .error .malformed

/-- The start of the name of the next member of a record, after its quotation mark. -/
def nextMember (first : Bool) (s : List Char) : Except Defect (Option (List Char)) :=
  match skipSpace s with
  | [] => .error .unfinished
  | '\x7d' :: _ => .ok none
  | c :: s =>
    if first then if c = '"' then .ok (some s) else .error .malformed
    else if c = ',' then
      match skipSpace s with
      | [] => .error .unfinished
      | '"' :: s => .ok (some s)
      | _ => .error .malformed
    else .error .malformed

/-- Demands one mark after space. -/
def demandMark (mark : Char) (s : List Char) : Except Defect (List Char) :=
  match skipSpace s with
  | [] => .error .unfinished
  | c :: s => if c = mark then .ok s else .error .malformed

mutual

/-- Passes over a value.  The fuel bounds the number of values within it. -/
def skipValueWith : (fuel : Nat) → List Char → Except Defect (List Char)
  | 0, _ => .error .unfinished
  | fuel + 1, s =>
    match skipSpace s with
    | [] => .error .unfinished
    | c :: s =>
      if c = 'n' then demand "ull".toList s
      else if c = 't' then demand "rue".toList s
      else if c = 'f' then demand "alse".toList s
      else if c = '"' then skipQuoted s
      else if c = '-' ∨ Text.isDigit c then skipNumber (c :: s)
      else if c = '[' then skipItemsWith fuel true s
      else if c = '\x7b' then skipMembersWith fuel true s
      else .error .malformed

/-- Passes over the items of a list and its last bracket. -/
def skipItemsWith : (fuel : Nat) → (first : Bool) → List Char → Except Defect (List Char)
  | 0, _, _ => .error .unfinished
  | fuel + 1, first, s =>
    match nextItem first s with
    | .error e => .error e
    | .ok none => demandMark ']' s
    | .ok (some s) =>
      match skipValueWith fuel s with
      | .error e => .error e
      | .ok s => skipItemsWith fuel false s

/-- Passes over the members of a record and its last brace. -/
def skipMembersWith : (fuel : Nat) → (first : Bool) → List Char → Except Defect (List Char)
  | 0, _, _ => .error .unfinished
  | fuel + 1, first, s =>
    match nextMember first s with
    | .error e => .error e
    | .ok none => demandMark '\x7d' s
    | .ok (some s) =>
      match (skipQuoted s).bind (demandMark ':') with
      | .error e => .error e
      | .ok s =>
        match skipValueWith fuel s with
        | .error e => .error e
        | .ok s => skipMembersWith fuel false s

end

/-- Passes over a value. -/
def skipValue (s : List Char) : Except Defect (List Char) :=
  skipValueWith (2 * s.length + 1) s

mutual

/-- Reads a value.  The fuel bounds the number of values within it. -/
def readValueWith : (fuel : Nat) → List Char → Except Defect (Value × List Char)
  | 0, _ => .error .unfinished
  | fuel + 1, s =>
    match skipSpace s with
    | [] => .error .unfinished
    | c :: s =>
      if c = 'n' then (demand "ull".toList s).map fun s => (.null, s)
      else if c = 't' then (demand "rue".toList s).map fun s => (.boolean true, s)
      else if c = 'f' then (demand "alse".toList s).map fun s => (.boolean false, s)
      else if c = '"' then (readQuoted s).map fun (t, s) => (.text t, s)
      else if c = '-' ∨ Text.isDigit c then (readNumber (c :: s)).map fun (n, s) => (.number n, s)
      else if c = '[' then (readItemsWith fuel true s).map fun (xs, s) => (.list xs, s)
      else if c = '\x7b' then (readMembersWith fuel true s).map fun (ms, s) => (.record ms, s)
      else .error .malformed

/-- Reads the items of a list and its last bracket. -/
def readItemsWith : (fuel : Nat) → (first : Bool) → List Char →
    Except Defect (List Value × List Char)
  | 0, _, _ => .error .unfinished
  | fuel + 1, first, s =>
    match nextItem first s with
    | .error e => .error e
    | .ok none => (demandMark ']' s).map fun s => ([], s)
    | .ok (some s) =>
      match readValueWith fuel s with
      | .error e => .error e
      | .ok (x, s) => (readItemsWith fuel false s).map fun (xs, s) => (x :: xs, s)

/-- Reads the members of a record and its last brace. -/
def readMembersWith : (fuel : Nat) → (first : Bool) → List Char →
    Except Defect (List (String × Value) × List Char)
  | 0, _, _ => .error .unfinished
  | fuel + 1, first, s =>
    match nextMember first s with
    | .error e => .error e
    | .ok none => (demandMark '\x7d' s).map fun s => ([], s)
    | .ok (some s) =>
      match readQuoted s with
      | .error e => .error e
      | .ok (name, s) =>
        match (demandMark ':' s).bind (readValueWith fuel) with
        | .error e => .error e
        | .ok (x, s) =>
          (readMembersWith fuel false s).map fun (ms, s) => ((name, x) :: ms, s)

end

/-- The value that a text denotes, with nothing but space around it. -/
def Value.read (s : String) : Except Defect Value :=
  match readValueWith (2 * s.length + 1) s.toList with
  | .error e => .error e
  | .ok (v, rest) => if (skipSpace rest).isEmpty then .ok v else .error .malformed

namespace Value

/-- The member under a name; of several the last. -/
def member? (v : Value) (name : String) : Option Value :=
  match v with
  | .record members => members.reverse.lookup name
  | _ => none

end Value

end AuditChain.Json
