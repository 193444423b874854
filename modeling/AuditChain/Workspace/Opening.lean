import AuditChain.Store.LedgerName
import AuditChain.Workspace.Beside

/-!
# Opening ledgers

A path to a ledger is resolved by its text alone: a step up takes away the name before it, whether
that is a directory or not.  Names on the way need not be there, but nothing else than a directory
may stand where one is needed, even at a name that is taken away again.  What is left is then opened
like any file.

## Main definitions

* `Workspace.resolve` — the location that a path to a ledger stands for.
* `Workspace.reach` — opens what the name of a ledger leads to, whatever it holds.
* `Workspace.openLedger` — opens a ledger, and makes what is missing.
-/

namespace AuditChain

/-- An open ledger file. -/
structure OpenFile where
  /-- Where it is. -/
  location : Location
  /-- How it was opened. -/
  access : Access
  /-- The connection can write to it. -/
  mayWrite : Bool
  deriving DecidableEq, Repr

/-- Where an opened ledger is. -/
inductive LedgerPlace where
  /-- In no file: it goes away with its connection, or with the last of those that share it. -/
  | nowhere (shared : Option String)
  /-- In a file. -/
  | file (o : OpenFile)
  deriving DecidableEq, Repr

namespace Workspace

/-- The longest path of a ledger from the root, and eight octets more for the files beside it. -/
def maxLedgerPath : Nat := 512

/-- The octets of the path from the root to a location. -/
def octets (l : Location) : Nat :=
  l.foldl (fun n name => n + name.utf8ByteSize + 1) 0

/-- Something other than a missing file keeps a location from being looked at. -/
def isBarred (w : Workspace) (l : Location) : Bool :=
  match w.follow [] l with
  | .ok _ => false
  | .error e => e != .notFound

/-- Goes on from a location by one name, by its text alone. -/
def descend? (w : Workspace) (here : Location) (name : String) : Option Location :=
  if name = "." then some here
  else if name = ".." then some here.dropLast
  else
    let next := here ++ [name]
    if maxLedgerPath ≤ octets next ∨ w.isBarred next then none else some next

/-- The location that a path to a ledger stands for. -/
def resolve (w : Workspace) (path : String) : Option Location :=
  ((Path.parts path).foldlM w.descend? (w.start path)).filter fun l =>
    l != [] && octets l + 8 ≤ maxLedgerPath

/-- The report on a ledger that cannot be opened. -/
def unable (name : String) : StoreError :=
  .backend s!"unable to open database file: {name}"

/-- The files once the one at a location has been opened.  One that is missing comes to be there and
holds nothing.  A directory cannot be opened to be written, and not be read once it is open. -/
def touch (w : Workspace) (l : Location) (a : Access) (failed : StoreError) :
    Except StoreError Workspace :=
  match w.follow [] l with
  | .error _ => .error failed
  | .ok _ =>
    match w.at? l with
    | some .directory => .error (if a.mayWrite then failed else .inputOutput)
    | some _ => .ok w
    | none => if a.mayCreate then .ok (w.put l (.octets [])) else .error failed

/-- The location of the file that a path leads to, which is opened under a name. -/
def reachFile (w : Workspace) (name path : String) (a : Access) :
    Except StoreError Location × Workspace :=
  match w.resolve path with
  | none => (.error (unable name), w)
  | some l =>
    if (a.pattern.map w.leadsSomewhere).getD true then
      match w.touch l a (unable name) with
      | .error e => (.error e, w)
      | .ok w => (.ok l, w)
    else (.error .inputOutput, w)

/-! ### Looking at a file -/

open Beside

/-- What a connection has found in a file. -/
structure Finding where
  /-- The ledger. -/
  file : LedgerFile
  /-- The log is in use. -/
  logging : Bool
  /-- The connection can write, as far as the index of the log is concerned. -/
  indexed : Bool

/-- The files with a ledger changed. -/
def mapLedger (w : Workspace) (l : Location) (f : LedgerFile → LedgerFile) : Workspace :=
  match w.at? l with
  | some (.ledger g) => w.put l (.ledger (f g))
  | _ => w

/-- Looks at a file and at those beside it.  Where they are not looked at, the file is not written
either. -/
def look (l : Location) (a : Access) : Step Finding := do
  if a.log = .ignored then
    let f ← MonadExcept.ofExcept (ledgerOf ((← get).at? l))
    return ⟨{ f with log := none }, false, false⟩
  awaitMark l a
  settleJournal l a
  let joined ← joinLog l a
  let writable ← if joined then joinIndex l a else pure true
  match ledgerOf ((← get).at? l) with
  | .error e =>
    if joined && writable && a.mayWrite then modify (dropLog l a)
    throw e
  | .ok f =>
    if joined || f.format != .logged then return ⟨f, joined, writable⟩
    else if a.log = .refused then throw .unopened
    else return ⟨f, true, ← openLog l a⟩

/-- A connection is about to write. -/
def claim (l : Location) (a : Access) (g : Finding) : Step Unit := do
  if !(a.mayWrite && g.indexed) then throw Table.readOnlyReport
  if g.file.locked && a.locks == .held then throw Table.lockedReport
  if !g.logging then keepJournal l

/-- Gives a file a log if the connection keeps one. -/
def giveLog (l : Location) (a : Access) (g : Finding) : Step Finding := do
  if a.log != .kept || g.logging then return g
  claim l a g
  let f := { g.file with format := .logged }
  modify fun w => w.put l (.ledger f)
  return ⟨f, true, ← openLog l a⟩

/-- Makes what is missing in a file: the table, and the triggers that guard its rows. -/
def complete (l : Location) (a : Access) (g : Finding) : Step Unit := do
  if g.file.isReady then return
  claim l a g
  let f := if g.file.format = .blank then { g.file with format := .direct } else g.file
  modify fun w => afterWrite l a (w.put l (.ledger (f.write g.logging f.readyTable)))

/-- Opens the ledger in a file. -/
def openFile (l : Location) (a : Access) : Step OpenFile := do
  let g ← giveLog l a (← look l a)
  complete l a g
  modify fun w => w.mapLedger l fun f => { f with indexed := g.logging && g.indexed }
  return ⟨l, a, a.mayWrite && g.indexed⟩

/-- Opens what a name leads to, whatever it holds. -/
def reach (w : Workspace) (name : String) :
    Except StoreError (LedgerPlace × Access) × Workspace :=
  match LedgerName.read name with
  | .error fault => (.error (.backend fault.message), w)
  | .ok ⟨none, shared, a⟩ => (.ok (.nowhere shared, a), w)
  | .ok ⟨some path, _, a⟩ =>
    match w.reachFile name path a with
    | (.error e, w) => (.error e, w)
    | (.ok l, w) => (.ok (.file ⟨l, a, a.mayWrite⟩, a), w)

/-- Opens the ledger of a name.  If there is none in the file, a ledger without rows comes to be
there; a ledger that is there gets back the triggers that guard its rows. -/
def openLedger (w : Workspace) (name : String) : Except StoreError LedgerPlace × Workspace :=
  match w.reach name with
  | (.error e, w) => (.error e, w)
  | (.ok (.nowhere shared, a), w) =>
    (if a.mayWrite then .ok (.nowhere shared) else .error Table.readOnlyReport, w)
  | (.ok (.file o, a), w) =>
    match (openFile o.location a).run.run w with
    | (.error e, w) => (.error e, w)
    | (.ok o, w) => (.ok (.file o), w)

end Workspace

/-! ### Open files -/

namespace OpenFile

variable (o : OpenFile)

/-- The ledger in an open file. -/
def ledger? (w : Workspace) : Option LedgerFile :=
  match w.at? o.location with
  | some (.ledger f) => some f
  | _ => none

/-- Why a connection cannot write, if it cannot. -/
def refusal? (w : Workspace) (f : LedgerFile) : Option StoreError :=
  if !o.mayWrite then some Table.readOnlyReport
  else if f.locked && o.access.locks == .held then some Table.lockedReport
  else if o.access.log = .refused ∧ Beside.isCramped o.location w then some .unopened
  else none

/-- The table as a connection sees it, or why it cannot see it. -/
def view (w : Workspace) : Except StoreError Table :=
  match o.ledger? w with
  | none => .ok .empty
  | some f =>
    if f.damaged then .error (.backend "database disk image is malformed")
    else if f.format = .logged ∧ o.access.log = .refused then .error .unopened
    else
      let t := if o.access.log = .ignored then f.base else f.table
      .ok { t.getD .empty with refusal := o.refusal? w f }

/-- The files after a connection has written a table. -/
def write (w : Workspace) (t : Table) : Workspace :=
  Beside.afterWrite o.location o.access
    (w.mapLedger o.location fun f =>
      f.write (o.access.log == .kept) { t with refusal := none })

/-- A ledger file that somebody has overwritten, after what was in the log has been put into it: the log
held all of it, or only parts. -/
def mended (f : LedgerFile) : LedgerFile :=
  if f.base.isNone then f.settle else { f.settle with damaged := true }

/-- The files after a connection without others beside it was closed.  Before it was closed they may
have been overwritten; `before` are the files as the connection has left them.  What is in the log is
put into the file, and the log is taken away. -/
def close (before w : Workspace) : Workspace :=
  let l := o.location
  let w := w.mapLedger l fun f => { f with indexed := false }
  match o.ledger? before with
  | none => w
  | some f =>
    if o.access.log != .kept || !o.mayWrite then w
    else if f.log.isNone then Beside.dropLog l o.access w
    else if (Beside.standing? w (Beside.log l)).isSome then
      w.mapLedger l fun f => { f with log := none }
    else
      let f := { f with indexed := false }
      let g := if (o.ledger? w).isSome then f.settle else mended f
      Beside.dropLog l o.access (w.put l (.ledger g))

end OpenFile

end AuditChain
