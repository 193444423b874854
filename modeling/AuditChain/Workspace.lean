import AuditChain.Path
import AuditChain.Store.LedgerFile

/-!
# Working directories

The files that a command reads and writes: a tree of directories in which a file is a run of
octets or a ledger.  What the operating system says when a name leads nowhere is part of the
answers of a command, so the failures are kept apart.

## Main definitions

* `File`, `Workspace` — the files of a system, and the directory that commands work in.
* `OsError` — why a name cannot be used.
* `Workspace.follow`, `Workspace.locate` — where a path leads.
* `Workspace.readText`, `Workspace.writeText` — plain files.
* `Workspace.makeDirectory`, `Workspace.makeDirectories` — directories.
-/

namespace AuditChain

/-- What a name stands for. -/
inductive File where
  /-- A directory. -/
  | directory
  /-- A plain file. -/
  | octets (bytes : List UInt8)
  /-- A ledger. -/
  | ledger (f : LedgerFile)

/-- Why a name cannot be used. -/
inductive OsError where
  /-- There is no such file. -/
  | notFound
  /-- Something stands in the way. -/
  | exists
  /-- A file stands where a directory is needed. -/
  | notDirectory
  /-- A directory stands where a file is needed. -/
  | isDirectory
  /-- The path or one of its names is too long. -/
  | nameTooLong
  /-- The path holds the octet zero. -/
  | zeroOctet
  deriving DecidableEq, Repr

/-- The wording of the operating system. -/
def OsError.message : OsError → String
  | .notFound => "No such file or directory (os error 2)"
  | .exists => "File exists (os error 17)"
  | .notDirectory => "Not a directory (os error 20)"
  | .isDirectory => "Is a directory (os error 21)"
  | .nameTooLong => "File name too long (os error 36)"
  | .zeroOctet => "file name contained an unexpected NUL byte"

/-- The names that lead from the root to a file. -/
abbrev Location := List String

/-- The files of a system, as far as they are known, and the directory that commands work in. -/
structure Workspace where
  /-- The working directory.  It and those above it are always there. -/
  home : Location := []
  /-- What each location holds. -/
  files : List (Location × File) := []

namespace Workspace

/-- A working directory at the root, without files. -/
def empty : Workspace := {}

/-- What a location holds. -/
def at? (w : Workspace) (l : Location) : Option File :=
  if l.isPrefixOf w.home then some .directory else w.files.lookup l

/-- A location holds a directory. -/
def isDirectory (w : Workspace) (l : Location) : Bool :=
  match w.at? l with
  | some .directory => true
  | _ => false

/-- Puts a file at a location. -/
def put (w : Workspace) (l : Location) (f : File) : Workspace :=
  { w with files := (l, f) :: w.files.filter fun p => p.1 != l }

/-- Takes away what a location holds. -/
def remove (w : Workspace) (l : Location) : Workspace :=
  { w with files := w.files.filter fun p => p.1 != l }

/-! ### Paths -/

/-- Where a path starts: at the root or in the working directory. -/
def start (w : Workspace) (path : String) : Location :=
  if Path.isAbsolute path then [] else w.home

/-- Follows the names of a path; all but the last must lead to directories. -/
def follow (w : Workspace) (here : Location) : (names : List String) → Except OsError Location
  | [] => .ok here
  | name :: rest =>
    match w.at? here with
    | none => .error .notFound
    | some .directory =>
      if name = "." then w.follow here rest
      else if name = ".." then w.follow here.dropLast rest
      else if Path.maxName < name.utf8ByteSize then .error .nameTooLong
      else w.follow (here ++ [name]) rest
    | some _ => .error .notDirectory

/-- What is wrong with a path that no file can have. -/
def pathFault? (path : String) : Option OsError :=
  if Path.holdsZero path then some .zeroOctet
  else if Path.maxOctets < path.utf8ByteSize then some .nameTooLong
  else if path = "" then some .notFound
  else none

/-- The location that some names of a path lead to, from where it starts. -/
def along (w : Workspace) (path : String) (names : List String) : Except OsError Location :=
  match pathFault? path with
  | some e => .error e
  | none => w.follow (w.start path) names

/-- The location that a path leads to.  A path that ends in a slash must lead to a directory. -/
def locate (w : Workspace) (path : String) : Except OsError Location :=
  match w.along path (Path.parts path) with
  | .error e => .error e
  | .ok l =>
    if Path.endsInSlash path then
      match w.at? l with
      | some .directory => .ok l
      | some _ => .error .notDirectory
      | none => .error .notFound
    else .ok l

/-- Something is there where a path leads. -/
def leadsSomewhere (w : Workspace) (path : String) : Bool :=
  match w.locate path with
  | .ok l => (w.at? l).isSome
  | .error _ => false

/-- The location at which a path names a file to be written, whether it is there or not.  A path that
ends in a slash names a directory. -/
def locateNew (w : Workspace) (path : String) : Except OsError Location :=
  let names := Path.parts path
  let named := if Path.endsInSlash path then names.dropLast ++ ["."] else names
  match w.along path named with
  | .error e => .error e
  | .ok l => if w.isDirectory l then .error .isDirectory else .ok l

/-! ### Plain files -/

/-- Why a file cannot be read as text. -/
inductive ReadError where
  /-- The name cannot be used. -/
  | os (e : OsError)
  /-- The octets are no text. -/
  | notText
  deriving DecidableEq, Repr

/-- The wording of a failed read. -/
def ReadError.message : ReadError → String
  | .os e => e.message
  | .notText => "stream did not contain valid UTF-8"

/-- The octets of a ledger file, as far as they can be text: with a table they are none. -/
def octetsOf? (f : LedgerFile) : Option (List UInt8) :=
  if f.base.isSome then none
  else
    match f.format with
    | .blank => some []
    | _ => some LedgerFile.firstPage

/-- Octets as text. -/
def textOfOctets (bytes : List UInt8) : Except ReadError String :=
  (Text.ofUtf8 bytes).mapError fun _ => .notText

/-- Reads a file as text. -/
def readText (w : Workspace) (path : String) : Except ReadError String :=
  match w.locate path with
  | .error e => .error (.os e)
  | .ok l =>
    match w.at? l with
    | none => .error (.os .notFound)
    | some .directory => .error (.os .isDirectory)
    | some (.octets bytes) => textOfOctets bytes
    | some (.ledger f) =>
      match octetsOf? f with
      | none => .error .notText
      | some bytes => textOfOctets bytes

/-- Writes a file, in place of one that is there. -/
def write (w : Workspace) (path : String) (f : File) : Except OsError Workspace :=
  match w.locateNew path with
  | .error e => .error e
  | .ok l => .ok (w.put l f)

/-- Writes a text to a file, in place of one that is there. -/
def writeText (w : Workspace) (path : String) (s : String) : Except OsError Workspace :=
  w.write path (.octets (Text.utf8 s))

/-! ### Directories -/

/-- Makes a directory in one that is there. -/
def makeDirectory (w : Workspace) (path : String) : Except OsError Workspace :=
  let names := Path.parts path
  match w.along path names with
  | .error e => .error e
  | .ok l =>
    if names.getLast? = some "." ∨ names.getLast? = some ".." ∨ (w.at? l).isSome then
      .error .exists
    else .ok (w.put l .directory)

/-- A path leads to a directory. -/
def leadsToDirectory (w : Workspace) (path : String) : Bool :=
  match w.locate path with
  | .ok l => w.isDirectory l
  | .error _ => false

/-- Makes directories one after another, those that are there apart. -/
def makeEach (w : Workspace) : (paths : List String) → Except OsError Unit × Workspace
  | [] => (.ok (), w)
  | path :: rest =>
    match w.makeDirectory path with
    | .ok w => w.makeEach rest
    | .error e =>
      if e = .exists ∧ w.leadsToDirectory path then w.makeEach rest else (.error e, w)

/-- Looks for the nearest directory that is there or can be made, from below, and then makes those
that were `missing` under it. -/
def makeFrom (w : Workspace) (missing : List String) :
    (paths : List String) → Except OsError Unit × Workspace
  | [] => w.makeEach missing
  | path :: above =>
    match w.makeDirectory path with
    | .ok w => w.makeEach missing
    | .error .notFound => w.makeFrom (path :: missing) above
    | .error e =>
      if e = .exists ∧ w.leadsToDirectory path then w.makeEach missing else (.error e, w)

/-- Makes a directory and the directories that lead to it.  Some of them may be made also if it
fails in the end. -/
def makeDirectories (w : Workspace) (path : String) : Except OsError Unit × Workspace :=
  w.makeFrom [] (Path.ancestors path)

/-- Makes the directories that lead to a file, unless it is in the working directory. -/
def makeParents (w : Workspace) (path : String) : Except OsError Unit × Workspace :=
  w.makeDirectories ((Path.parent? path).getD "")

/-- Puts a file under a name together with the directories that lead to it; if that fails, as many of
them as can be made. -/
def add (w : Workspace) (name : String) : (f : File) → Workspace
  | .directory => (w.makeDirectories name).2
  | f =>
    let (_, w) := w.makeParents name
    (w.write name f).toOption.getD w

end Workspace

end AuditChain
