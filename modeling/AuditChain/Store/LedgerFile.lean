import AuditChain.Store.Table

/-!
# Ledger files

A ledger file holds a table, once somebody has made one.  What is new in a file with a log is in the
log at first, until the last connection closes.  A transaction that holds the write lock works on a
draft; all others go on reading the table as it was, until the transaction is committed.

## Main definitions

* `LedgerFile` — a table in its file and in the log, and the draft of a transaction.
* `LedgerFile.table`, `LedgerFile.write` — the table that all see, and another one in its place.
* `LedgerFile.settle` — the file once the log is empty.
* `LedgerFile.begin`, `LedgerFile.commit`, `LedgerFile.edit` — a connection beside the others.
-/

namespace AuditChain

/-- What a ledger file says of itself. -/
inductive Format where
  /-- Nothing: it holds nothing yet. -/
  | blank
  /-- Changes are made in the file. -/
  | direct
  /-- Changes go to a log first. -/
  | logged
  deriving DecidableEq, Repr

/-- A ledger file. -/
structure LedgerFile where
  /-- What it says of itself. -/
  format : Format := .blank
  /-- The table in the file, once there is one. -/
  base : Option Table := none
  /-- The table that the log makes of it, if there is anything in the log. -/
  log : Option Table := none
  /-- A transaction holds the write lock. -/
  locked : Bool := false
  /-- What that transaction has made of the table, if it has changed it. -/
  draft : Option Table := none
  /-- A connection has the index of the log open, and can write it. -/
  indexed : Bool := false
  /-- Parts of the file were overwritten: there is a table, but its rows cannot be read. -/
  damaged : Bool := false

/-- Why another connection cannot do what it is asked to. -/
inductive FileError where
  /-- The file cannot be opened, or not be written. -/
  | unopened (e : StoreError)
  /-- There is no table to edit. -/
  | noTable
  /-- There is no table to put a trigger on. -/
  | noTriggerTable
  /-- The trigger is there already. -/
  | triggerExists
  /-- There is no such trigger. -/
  | noTrigger
  /-- The transaction has begun already. -/
  | nested
  /-- No transaction has begun. -/
  | notBegun
  /-- The edit is refused. -/
  | refused (e : EditError)
  deriving DecidableEq, Repr

/-- The wording of a failure. -/
def FileError.message : FileError → String
  | .unopened (.backend reason) => reason
  | .unopened e => e.message
  | .noTable => "no such table: audit_entries"
  | .noTriggerTable => "no such table: main.audit_entries"
  | .triggerExists => "trigger frozen already exists"
  | .noTrigger => "no such trigger: frozen"
  | .nested => "cannot start a transaction within a transaction"
  | .notBegun => "cannot commit - no transaction is active"
  | .refused e => e.message

namespace LedgerFile

variable {α : Type}

/-- The table that all see, once there is one. -/
def table (f : LedgerFile) : Option Table :=
  f.log.or f.base

/-- The file with another table, in the file or in the log. -/
def write (f : LedgerFile) (logging : Bool) (t : Table) : LedgerFile :=
  if logging then { f with log := some t } else { f with base := some t }

/-- Changes go to the log. -/
def isLogging (f : LedgerFile) : Bool :=
  f.format == .logged || f.log.isSome

/-- The file once what is in the log has been put into it. -/
def settle (f : LedgerFile) : LedgerFile :=
  { f with base := f.table, log := none }

/-- A file holds a table with the triggers that guard its rows. -/
def isReady (f : LedgerFile) : Bool :=
  match f.table with
  | none => false
  | some t => t.guarded

/-- The table of a file made ready: one that is missing is made, and so are the triggers. -/
def readyTable (f : LedgerFile) : Table :=
  match f.table with
  | none => .empty
  | some t => { t with guarded := true }

/-- Takes the write lock. -/
def begin (f : LedgerFile) : Except FileError LedgerFile :=
  if f.locked then .error .nested else .ok { f with locked := true }

/-- Gives the write lock back; a draft becomes the table. -/
def commit (f : LedgerFile) : Except FileError LedgerFile :=
  if f.locked then
    let f := (f.draft.map (f.write f.isLogging)).getD f
    .ok { f with locked := false, draft := none }
  else .error .notBegun

/-- The table that the connection with the lock sees. -/
def current (f : LedgerFile) : Option Table :=
  f.draft.or f.table

/-- The file with another table in its draft, or at once if nobody holds the lock. -/
def amend (f : LedgerFile) (t : Table) : LedgerFile :=
  if f.locked then { f with draft := some t } else f.write f.isLogging t

/-- An edit by the connection with the lock.  A refused edit may leave changes too. -/
def edit (f : LedgerFile) (g : Table → Except EditError α × Table) :
    Except FileError α × LedgerFile :=
  match f.current with
  | none => (.error .noTable, f)
  | some t =>
    let (result, t) := g t
    (result.mapError .refused, f.amend t)

/-- Puts up the trigger that refuses every insert with a text. -/
def freeze (f : LedgerFile) (text : String) : Except FileError LedgerFile :=
  match f.current with
  | none => .error .noTriggerTable
  | some t =>
    if t.frozen.isSome then .error .triggerExists else .ok (f.amend { t with frozen := some text })

/-- Takes that trigger away. -/
def thaw (f : LedgerFile) : Except FileError LedgerFile :=
  match f.current with
  | none => .error .noTrigger
  | some t =>
    if t.frozen.isNone then .error .noTrigger else .ok (f.amend { t with frozen := none })

/-- The octets of a file with a log and without a table: its heading says where the pages are, and that
there is one, which is empty. -/
def firstPage : List UInt8 :=
  let zeros (n : Nat) : List UInt8 := List.replicate n 0
  Text.utf8 "SQLite format 3" ++
    [0, 16, 0, 2, 2, 0, 64, 32, 32, 0, 0, 0, 1, 0, 0, 0, 1] ++ zeros 63 ++
    [1, 0, 46, 122, 112, 13, 0, 0, 0, 0, 16] ++ zeros 3990

end LedgerFile

end AuditChain
