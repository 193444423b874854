import AuditChain.Store.Access
import AuditChain.Text.Case
import AuditChain.Text.Digits
import AuditChain.Text.Hex
import AuditChain.Text.Utf8

/-!
# Names of ledgers

A ledger is opened by a name.  A name that begins with `file:` is read as an address: a path with
escaped octets, and options behind a question mark that say what the connection may do.  Any other
name is a path.  An empty path, and the path `:memory:`, stand for a ledger in no file.  Such a ledger
belongs to one connection, unless its address says that others with the same address share it.

## Main definitions

* `LedgerName` — the path of a ledger, and what a connection may do there.
* `LedgerName.Fault` — why a name cannot be used.
* `LedgerName.read` — the name that a text says.
-/

namespace AuditChain

/-- The name of a ledger. -/
structure LedgerName where
  /-- The path; there is none for a ledger in no file. -/
  path : Option String
  /-- What connections to the same ledger in no file share it by. -/
  shared : Option String := none
  /-- What a connection may do. -/
  access : Access := {}
  deriving DecidableEq, Repr

namespace LedgerName

/-- Why a name cannot be used. -/
inductive Fault where
  /-- The name holds the octet zero. -/
  | zeroOctet (position : Nat)
  /-- The address is on another machine. -/
  | authority (text : String)
  /-- There is no such way of access. -/
  | unknownMode (text : String)
  /-- An option asks for more than the one before it allows. -/
  | modeNotAllowed (text : String)
  /-- There is no such way of caching. -/
  | unknownCache (text : String)
  /-- There is no such file system. -/
  | unknownSystem (text : String)
  deriving DecidableEq, Repr

/-- The wording of a fault. -/
def Fault.message : Fault → String
  | .zeroOctet position => s!"nul byte found in provided data at position: {position}"
  | .authority text => s!"invalid uri authority: {text}"
  | .unknownMode text => s!"no such access mode: {text}"
  | .modeNotAllowed text => s!"access mode not allowed: {text}"
  | .unknownCache text => s!"no such cache mode: {text}"
  | .unknownSystem text => s!"no such vfs: {text}"

/-! ### Parts of an address -/

/-- The octets of a part of an address, with two hexadecimal digits behind each percent sign that
stands for an octet.  An escaped zero ends the part. -/
def unescape : List Char → List UInt8
  | [] => []
  | '%' :: a :: b :: s =>
    match Text.hexValue? a, Text.hexValue? b with
    | some hi, some lo =>
      if hi = 0 ∧ lo = 0 then [] else UInt8.ofNat (16 * hi + lo) :: unescape s
    | _, _ => 37 :: unescape (a :: b :: s)
  | c :: s => Text.utf8 (String.singleton c) ++ unescape s

/-- The text of a part of an address. -/
def textOf (part : List Char) : String :=
  Text.lossy (unescape part)

/-- What stands before the first mark in a text, and what stands behind it. -/
def splitAt (mark : Char) (s : List Char) : List Char × List Char :=
  (s.takeWhile fun c => c != mark, (s.dropWhile fun c => c != mark).drop 1)

/-- An address without its machine, which is this one if it is named at all. -/
def dropAuthority : List Char → Except Fault (List Char)
  | '/' :: '/' :: s =>
    let machine := s.takeWhile fun c => c != '/'
    if machine = [] ∨ machine = "localhost".toList then .ok (s.dropWhile fun c => c != '/')
    else .error (.authority (String.ofList machine))
  | s => .ok s

/-- The options of an address, each with its name and its value.  One without a name says
nothing. -/
def optionsOf (query : List Char) : List (String × String) :=
  let options := ((String.ofList query).splitOn "&").map fun option =>
    let (name, value) := splitAt '=' option.toList
    (textOf name, textOf value)
  options.filter fun option => option.1 != ""

/-! ### Options -/

/-- How a ledger is opened, as far as options have said. -/
structure Manner where
  /-- The ways of access that the next option may ask for, as a bound on their ranks. -/
  bound : Nat := 6
  /-- The connection may make the file. -/
  mayCreate : Bool := true
  /-- The connection may write. -/
  mayWrite : Bool := true
  /-- The ledger is in no file. -/
  nowhere : Bool := false
  /-- The ledger is shared by those who open it under one address. -/
  shared : Bool := false
  /-- Nobody else changes the file: it can be read, and only read, without any lock. -/
  steady : Option Bool := none
  /-- No lock is taken. -/
  unlocked : Option Bool := none
  /-- The index of the log is only read. -/
  indexRead : Option Bool := none
  /-- The path of a file whose permissions a new file gets. -/
  pattern : Option String := none
  /-- The file system that is asked for. -/
  system : Option String := none

/-- The ways of access: rank, and whether the file may be made, may be written, and is none. -/
def mode? : String → Option (Nat × Bool × Bool × Bool)
  | "ro" => some (1, false, false, false)
  | "rw" => some (2, false, true, false)
  | "rwc" => some (6, true, true, false)
  | "memory" => some (0, true, true, true)
  | _ => none

/-- The value of an option is one of the words for true, or begins with a number that fits into 32
bits with a sign and whose lowest octet is not zero. -/
def isTrue (value : String) : Bool :=
  match value.toList with
  | c :: s =>
    if Text.isDigit c then
      let n := Text.valueOf ((c :: s).takeWhile Text.isDigit)
      decide (n ≤ 2147483647) && n % 256 != 0
    else ["on", "yes", "true"].contains (Text.lower value)
  | [] => false

/-- Takes an option into account. -/
def Manner.take (m : Manner) (name value : String) : Except Fault Manner :=
  match name with
  | "mode" =>
    match mode? value with
    | none => .error (.unknownMode value)
    | some (rank, mayCreate, mayWrite, nowhere) =>
      if m.bound < rank then .error (.modeNotAllowed value)
      else
        let bound := if nowhere then 128 else rank
        .ok { m with bound, mayCreate, mayWrite, nowhere }
  | "cache" =>
    if ["shared", "private"].contains value then .ok { m with shared := value == "shared" }
    else .error (.unknownCache value)
  | "vfs" => .ok { m with system := some value }
  | "immutable" => .ok { m with steady := m.steady.or (some (isTrue value)) }
  | "nolock" => .ok { m with unlocked := m.unlocked.or (some (isTrue value)) }
  | "readonly_shm" => .ok { m with indexRead := m.indexRead.or (some (isTrue value)) }
  | "modeof" => .ok { m with pattern := m.pattern.or (some value) }
  | _ => .ok m

/-- The file systems that can be asked for. -/
def systems : List String :=
  ["unix", "unix-none", "unix-dotfile", "unix-excl", "memdb"]

/-- What connections to a ledger in no file share it by, if they do.  The file system that keeps
everything in memory shares what has a path from the root. -/
def Manner.sharedAs (m : Manner) (system path : String) : Option String :=
  let rooted := system == "memdb" && !m.nowhere && path.startsWith "/" && path != "/"
  if path != "" && (m.shared || rooted) then some s!"{system}:{path}" else none

/-- What a connection in a manner makes of the log.  Two of the file systems know none. -/
def Manner.logUse (m : Manner) (system : String) : LogUse :=
  if m.steady.getD false then .ignored
  else if m.unlocked.getD false || ["unix-none", "unix-dotfile"].contains system then .refused
  else .kept

/-- How a connection in a manner keeps others out. -/
def Manner.lockUse (m : Manner) (system : String) : LockUse :=
  if m.steady.getD false || m.unlocked.getD false || system == "unix-none" then .none
  else if system = "unix-dotfile" then .marked
  else .held

/-- Where a connection in a manner keeps the index of the log.  It can be kept in memory by one that
lets nobody else at the file, which takes the right to write. -/
def Manner.indexUse (m : Manner) (system : String) : IndexUse :=
  if system = "unix-excl" ∧ m.mayWrite then .remembered
  else if m.indexRead.getD false then .read
  else .written

/-- A path in a manner as a name.  One of the file systems keeps everything in memory, and nothing is
written there that nobody is to change. -/
def Manner.name (m : Manner) (path : String) : Except Fault LedgerName :=
  let system := m.system.getD "unix"
  let unnamed := m.nowhere || path == "" || path == ":memory:"
  let steady := m.steady.getD false
  if !systems.contains system then .error (.unknownSystem system)
  else if system = "memdb" ∨ unnamed then
    .ok ⟨none, m.sharedAs system path, { mayWrite := m.mayWrite && (unnamed || !steady) }⟩
  else
    .ok ⟨some path, none, {
      mayCreate := m.mayCreate
      mayWrite := m.mayWrite
      log := m.logUse system
      locks := m.lockUse system
      index := m.indexUse system
      pattern := m.pattern }⟩

/-! ### Names -/

/-- The address behind `file:`. -/
def readAddress (s : List Char) : Except Fault LedgerName :=
  match dropAuthority s with
  | .error fault => .error fault
  | .ok s =>
    let (path, query) := splitAt '?' (splitAt '#' s).1
    match (optionsOf query).foldlM (fun (m : Manner) option => m.take option.1 option.2) {} with
    | .error fault => .error fault
    | .ok m => m.name (textOf path)

/-- The octets before the first zero, if there is one. -/
def zeroAt? (s : String) : Option Nat :=
  (Text.utf8 s).findIdx? fun b => b == 0

/-- The name that a text says. -/
def read (s : String) : Except Fault LedgerName :=
  match zeroAt? s with
  | some position => .error (.zeroOctet position)
  | none =>
    match s.toList with
    | 'f' :: 'i' :: 'l' :: 'e' :: ':' :: rest => readAddress rest
    | _ => ({} : Manner).name s

end LedgerName

end AuditChain
