import AuditChain.Json.Access
import AuditChain.Workspace

/-!
# Ledger files

A ledger file is a text: a heading, and a line for each row, which is a list in JSON with the
primary key and the cells in the order of the columns.  The heading says whether the ledger has a log.
What keeps writers out is not written; it is in place again when the file is opened.

## Main definitions

* `Cell.toJson`, `Cell.ofJson?` — a cell in JSON, and back.
* `Row.toJson`, `Row.ofJson?` — a row in JSON, and back.
* `Table.toText`, `Table.ofText?` — a table as the text of a file, and back.
* `File.octets?`, `File.ofOctets` — a file as octets, and back.
* `Workspace.changes` — what a command has to write, to make and to take away.
-/

namespace AuditChain

namespace Cell

/-- A cell in JSON; octets are told from text by the name they stand under. -/
def toJson : Cell → Json.Value
  | .null => .null
  | .text s => .text s
  | .badText bytes => .record [("text", .text (Text.hex bytes))]
  | .blob bytes => .record [("blob", .text (Text.hex bytes))]

/-- The cell that JSON says. -/
def ofJson? : Json.Value → Option Cell
  | .null => some .null
  | .text s => some (.text s)
  | .record [("text", .text s)] => (Text.unhex? s).map Cell.ofTextOctets
  | .record [("blob", .text s)] => (Text.unhex? s).map .blob
  | _ => none

end Cell

namespace Row

/-- A primary key in JSON. -/
def keyToJson : Int → Json.Value
  | .ofNat n => .nat n
  | .negSucc n => .number (.negative (n + 1))

/-- A row in JSON. -/
def toJson (r : Row) : Json.Value :=
  .list (keyToJson r.sequence :: Column.all.map fun c => (r.cells c).toJson)

/-- The row that JSON says. -/
def ofJson? : Json.Value → Option Row
  | .list (key :: cells) => do
    let sequence ← key.integer?
    let cells ← cells.mapM Cell.ofJson?
    if cells.length = Column.all.length then
      return ⟨sequence, fun c => cells.getD (c.index - 1) .null⟩
    else none
  | _ => none

end Row

namespace Table

/-- The first line of a ledger file. -/
def heading (format : Format) : String :=
  if format = .logged then "audit chain ledger with a log" else "audit chain ledger"

/-- A table as the text of a file. -/
def toText (format : Format) (t : Table) : String :=
  let lines := heading format :: t.rows.map fun r => r.toJson.compact
  String.join (lines.map fun line => line ++ "\n")

/-- The row that a line says. -/
def rowOfLine? (line : String) : Option Row :=
  match Json.Value.read line with
  | .ok v => Row.ofJson? v
  | .error _ => none

/-- The format and the table that the text of a file says. -/
def ofText? (s : String) : Option (Format × Table) :=
  match s.splitOn "\n" with
  | [] => none
  | first :: lines => do
    let format ← [Format.direct, .logged].find? fun format => heading format == first
    let rows ← (lines.filter fun line => line != "").mapM rowOfLine?
    return (format, rows.foldl put empty)

end Table

namespace File

/-- The octets of a file; a directory has none. -/
def octets? : File → Option (List UInt8)
  | .directory => none
  | .octets bytes => some bytes
  | .ledger f =>
    match f.format, f.table with
    | .blank, _ => some []
    | format, some t => some (Text.utf8 (t.toText format))
    | _, none => some LedgerFile.firstPage

/-- The file of some octets: a ledger if they are those of one. -/
def ofOctets (bytes : List UInt8) : File :=
  match (Text.ofUtf8 bytes).toOption.bind Table.ofText? with
  | some (format, t) => .ledger { format, base := some t }
  | none =>
    if bytes = LedgerFile.firstPage then .ledger { format := .logged } else .octets bytes

end File

namespace Workspace

/-- A location as a path from the root. -/
def pathOf (l : Location) : String :=
  "/" ++ "/".intercalate l

/-- The locations that a path leads through, the last included. -/
def leading (w : Workspace) (path : String) : List Location :=
  let step (found : List Location × Location) (name : String) : List Location × Location :=
    let here :=
      if name = "." then found.2
      else if name = ".." then found.2.dropLast
      else found.2 ++ [name]
    (here :: found.1, here)
  ((Path.parts path).foldl step ([], w.start path)).1.reverse

/-- What is to be done to a file. -/
inductive Change where
  /-- It becomes a directory. -/
  | makeDirectory
  /-- It gets these octets. -/
  | write (bytes : List UInt8)
  /-- It goes away. -/
  | remove
  deriving DecidableEq, Repr

/-- The change that leads to a file. -/
def changeTo (f : File) : Change :=
  match f.octets? with
  | none => .makeDirectory
  | some bytes => .write bytes

/-- The files of a directory that differ from before, those that lead to others first. -/
def changes (before after : Workspace) : List (String × Change) :=
  let gone := before.files.filter fun (l, _) => (after.at? l).isNone
  let changed := after.files.filter fun (l, f) =>
    match before.at? l with
    | none => true
    | some g => f.octets? != g.octets?
  (gone.map fun (l, _) => (pathOf l, .remove)) ++
    (changed.mergeSort fun a b => a.1.length ≤ b.1.length).map fun (l, f) => (pathOf l, changeTo f)

end Workspace

end AuditChain
