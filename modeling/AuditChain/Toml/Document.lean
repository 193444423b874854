import AuditChain.Toml.Scalar

/-!
# Reading settings documents

Values within values, and the lines of a document.

## Main definitions

* `Toml.readValue` — a value of any kind.
* `Toml.read` — a whole document: the members of its outermost table, or nothing if the text is no
  document.
-/

namespace AuditChain.Toml

/-- How deep lists and tables may be nested. -/
def maxDepth : Nat := 79

/-- Reads a value without parts: a text, a truth value, an instant or a number. -/
def readScalar (s : List Char) : Option (Value × List Char) :=
  match s with
  | '"' :: _ => (readText s).map fun (t, s) => (.text t, s)
  | '\'' :: _ => (readText s).map fun (t, s) => (.text t, s)
  | 't' :: 'r' :: 'u' :: 'e' :: s => some (.boolean true, s)
  | 'f' :: 'a' :: 'l' :: 's' :: 'e' :: s => some (.boolean false, s)
  | s =>
    match readInstant s with
    | some s => some (.instant, s)
    | none =>
      match readFraction s with
      | some s => some (.fraction, s)
      | none => (readInteger s).map fun (n, s) => (.integer n, s)

/-- Reads the items of a list after its bracket or a comma, by a reader of values. -/
def readItems (value : Reader Value) : (fuel : Nat) → Reader (List Value)
  | 0, _ => none
  | fuel + 1, s =>
    match skipLines (s.length + 1) s with
    | ']' :: s => some ([], s)
    | s =>
      (value s).bind fun (v, s) =>
        match skipLines (s.length + 1) s with
        | ',' :: s => (readItems value fuel s).map fun (vs, s) => (v :: vs, s)
        | ']' :: s => some ([v], s)
        | _ => none

/-- Reads a key and its value, by a reader of values. -/
def readPair (value : Reader Value) : Reader (List String × Value) := fun s => do
  let (key, s) ← readKey s
  let s ← demand '=' s
  let (v, s) ← value (skipSpace s)
  return ((key, v), s)

/-- Puts a value under a key of a table. -/
def putPair (members : Members) (key : List String) (v : Value) : Option Members :=
  match key.getLast? with
  | none => none
  | some name => Members.put key.dropLast name v .declared members

/-- Reads the members of a table between braces, of which the first has not been read. -/
def readMembers (value : Reader Value) : (fuel : Nat) → Members → Reader Members
  | 0, _, _ => none
  | fuel + 1, members, s =>
    (readPair value s).bind fun ((key, v), s) =>
      (putPair members key v).bind fun members =>
        match skipSpace s with
        | ',' :: s => readMembers value fuel members s
        | '\x7d' :: s => some (members, s)
        | _ => none

/-- Reads a table after its brace. -/
def readBraces (value : Reader Value) (s : List Char) : Option (Value × List Char) :=
  match skipSpace s with
  | '\x7d' :: s => some (.table [], s)
  | s =>
    (readMembers value (s.length + 1) [] s).map fun (members, s) =>
      (.table (membersToValue members), s)

/-- Reads a value nested at most so deep. -/
def readValueWith : (depth : Nat) → Reader Value
  | 0, s =>
    match s with
    | '[' :: _ => none
    | '\x7b' :: _ => none
    | s => readScalar s
  | depth + 1, s =>
    match s with
    | '[' :: s =>
      (readItems (readValueWith depth) (s.length + 1) s).map fun (vs, s) => (.list vs, s)
    | '\x7b' :: s => readBraces (readValueWith depth) s
    | s => readScalar s

/-- Reads a value. -/
def readValue : Reader Value :=
  readValueWith maxDepth

/-- A document while it is read: its members, and the table that the last header named. -/
structure Draft where
  /-- The members of the outermost table. -/
  members : Members := []
  /-- The path of the last header. -/
  header : List String := []

/-- Reads a header after its bracket. -/
def readHeader (d : Draft) (s : List Char) : Option (Draft × List Char) :=
  let (isList, s) : Bool × List Char := match s with
    | '[' :: s => (true, s)
    | s => (false, s)
  (readKey s).bind fun (key, s) =>
    (demand ']' s).bind fun s =>
      (if isList then demand ']' s else some s).bind fun s =>
        match key.getLast? with
        | none => none
        | some name =>
          let change := if isList then Members.append else Members.declare
          (change key.dropLast name d.members).map fun members => (⟨members, key⟩, s)

/-- Reads one line, up to its end: nothing, a header, or a key and its value, and then perhaps a
comment. -/
def readLine (d : Draft) (s : List Char) : Option (Draft × List Char) :=
  let content : Option (Draft × List Char) := match skipSpace s with
    | [] => some (d, [])
    | '[' :: s => readHeader d s
    | c :: s =>
      if c = '#' ∨ c = '\n' ∨ c = '\r' then some (d, c :: s)
      else
        (readPair readValue (c :: s)).bind fun ((key, v), s) =>
          match key.getLast? with
          | none => none
          | some name =>
            (Members.putAt d.header key.dropLast name v d.members).map fun members =>
              ({ d with members }, s)
  content.map fun (d, s) => (d, skipComment (skipSpace s))

/-- Reads lines to the end of a document; `fuel` bounds their number. -/
def readLines : (fuel : Nat) → Draft → List Char → Option Draft
  | 0, _, _ => none
  | fuel + 1, d, s =>
    match readLine d s with
    | none => none
    | some (d, []) => some d
    | some (d, s) => (newline? s).bind (readLines fuel d)

/-- Reads a document, which may begin with a byte order mark. -/
def read (s : String) : Option Value :=
  let cs := s.toList
  let cs := match cs with
    | '\ufeff' :: rest => rest
    | cs => cs
  (readLines (cs.length + 1) {} cs).map fun d => .table (membersToValue d.members)

end AuditChain.Toml
