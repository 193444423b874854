import AuditChain.Store.Access
import AuditChain.Workspace

/-!
# Files beside a ledger

Whoever opens a ledger looks at the files beside it.  A journal is what a transaction that broke off
has left, and is done away with; a log is joined; and a mark means that somebody else is at work.
Beside a ledger that holds nothing yet, all of them are left from another one.  What such a file holds
is hardly looked at, but a directory in its place is in the way.

Each step may fail, and what it has changed by then stays.

## Main definitions

* `Workspace.Step` — a step on the way to an open ledger.
* `Beside.journal`, `Beside.log`, `Beside.index`, `Beside.mark` — the files beside a ledger.
* `Beside.awaitMark`, `Beside.settleJournal`, `Beside.joinLog`, … — the steps.
-/

namespace AuditChain

/-- A step on the way to an open ledger: it changes files, and may fail. -/
abbrev Workspace.Step := ExceptT StoreError (StateM Workspace)

/-- A path or what it leads to cannot be opened. -/
def StoreError.unopened : StoreError :=
  .backend "unable to open database file"

/-- The operating system refuses to read a file or to delete it. -/
def StoreError.inputOutput : StoreError :=
  .backend "disk I/O error"

namespace File

/-- The file is a directory. -/
def isDirectory : File → Bool
  | .directory => true
  | _ => false

/-- A file is there and holds something. -/
def isFilled : File → Bool
  | .directory => true
  | .octets bytes => !bytes.isEmpty
  | .ledger f => f.format != .blank

/-- A file is long enough for the head of a log. -/
def holdsLogHead : File → Bool
  | .octets bytes => 32 ≤ bytes.length
  | _ => true

/-- The first octet of a file is there and is not zero. -/
def startsNonzero : File → Bool
  | .directory => false
  | .octets (b :: _) => b != 0
  | .octets [] => false
  | .ledger _ => true

end File

namespace Beside

open Workspace (Step)

/-! ### Names -/

/-- The location beside another one whose name has an ending more. -/
def named (ending : String) (l : Location) : Location :=
  match l.getLast? with
  | some name => l.dropLast ++ [name ++ ending]
  | none => l

/-- The endings of the files beside a ledger. -/
def endings : List String := ["-journal", "-wal", "-shm", ".lock"]

/-- Where the journal of a ledger is. -/
def journal : Location → Location := named "-journal"

/-- Where the log of a ledger is. -/
def log : Location → Location := named "-wal"

/-- Where the index of the log is. -/
def index : Location → Location := named "-shm"

/-- Where the mark of those who are at work is. -/
def mark : Location → Location := named ".lock"

/-- The last name of a location is too long for a file. -/
def isTooLong (l : Location) : Bool :=
  match l.getLast? with
  | some name => Path.maxName < name.utf8ByteSize
  | none => false

/-- What stands at a location, unless it is an empty file. -/
def standing? (w : Workspace) (l : Location) : Option File :=
  (w.at? l).filter File.isFilled

/-! ### The ledger itself -/

/-- The ledger that a file is.  A file of one octet or none is a ledger without a table. -/
def ledgerOf : Option File → Except StoreError LedgerFile
  | none => .ok {}
  | some (.ledger f) => .ok f
  | some (.octets []) => .ok {}
  | some (.octets [_]) => .ok {}
  | some (.octets _) => .error (.backend "file is not a database")
  | some .directory => .error .inputOutput

/-- A ledger holds nothing yet. -/
def isBlank (f : Option File) : Bool :=
  match ledgerOf f with
  | .ok f => f.format == .blank
  | .error _ => false

/-- Another connection holds the write lock of a ledger, as far as one that asks for it can see. -/
def isLocked (a : Access) (f : Option File) : Bool :=
  match ledgerOf f with
  | .ok f => f.locked && a.locks == .held
  | .error _ => false

/-! ### Steps -/

variable (l : Location) (a : Access)

/-- Puts a mark beside the ledger, which is taken away again after each transaction. -/
def awaitMark : Step Unit := do
  if a.locks = .marked then
    if isTooLong (mark l) then throw .inputOutput
    if ((← get).at? (mark l)).isSome then throw Table.lockedReport

/-- Does away with the journal of a transaction that broke off.  One that begins with the octet zero
was finished.  While somebody is at work, and that is so for one who has put up a mark, journals are
left alone. -/
def settleJournal : Step Unit := do
  let w ← get
  let ledger := w.at? l
  match standing? w (journal l) with
  | none => return
  | some f =>
    if a.locks = .marked || isLocked a ledger then return
    else if isBlank ledger then
      if (a.mayWrite || a.locks == .none) && !f.isDirectory then set (w.remove (journal l))
    else if f.isDirectory then throw .inputOutput
    else if f.startsNonzero then
      if a.mayWrite then set (w.remove (journal l)) else throw Table.readOnlyReport

/-- Joins the log that is there, whatever it holds; answers whether there is one. -/
def joinLog : Step Bool := do
  let w ← get
  match standing? w (log l) with
  | none => return false
  | some f =>
    if isBlank (w.at? l) then
      if f.isDirectory then throw .inputOutput
      set (w.remove (log l))
      return false
    else if f.isDirectory || a.log == .refused then throw .unopened
    else return true

/-- A connection has the index of the log open, and can write it. -/
def isIndexed (f : Option File) : Bool :=
  match ledgerOf f with
  | .ok f => f.indexed
  | .error _ => false

/-- Opens the index of the log; answers whether it can be written.  All connections share one. -/
def openIndex : Step Bool := do
  let w ← get
  if isIndexed (w.at? l) then return true
  match a.index, w.at? (index l) with
  | .remembered, _ => return true
  | _, some .directory => return false
  | .read, some _ => return false
  | .read, none => throw .unopened
  | .written, _ =>
    set (w.put (index l) (.octets [24, 226, 45, 0]))
    return true

/-- Opens the index of a log that was there.  The head of that log does not fit an index that cannot be
written, and nobody comes to mend it. -/
def joinIndex : Step Bool := do
  let writable ← openIndex l a
  let found := standing? (← get) (log l)
  if !writable && (found.map File.holdsLogHead).getD false then
    throw (.backend "locking protocol")
  return writable

/-- Starts a log if there is none, and opens its index; answers whether that can be written. -/
def openLog : Step Bool := do
  let w ← get
  if (w.at? (log l)).isNone then set (w.put (log l) (.octets []))
  openIndex l a

/-- No journal can be kept beside a ledger. -/
def isCramped (w : Workspace) : Bool :=
  isTooLong (journal l) || w.isDirectory (journal l)

/-- Keeps a journal for the time of a transaction. -/
def keepJournal : Step Unit := do
  let w ← get
  if isCramped l w then throw .unopened
  set (w.remove (journal l))

/-- The first thing that is written to a log takes the place of all that was there; without a log, a
journal was kept for the time of the transaction. -/
def afterWrite (w : Workspace) : Workspace :=
  if a.log = .kept then w.put (log l) (.octets []) else w.remove (journal l)

/-- Takes the log away, and its index if that is in a file. -/
def dropLog (w : Workspace) : Workspace :=
  let w := w.remove (log l)
  if a.index = .remembered then w else w.remove (index l)

end Beside

end AuditChain
