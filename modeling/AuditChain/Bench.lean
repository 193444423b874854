import AuditChain.Json.Access
import AuditChain.Json.Ledger
import AuditChain.Ledger
import AuditChain.Store.Scripted

/-!
# Ledgers on the bench

A ledger over a store with scripted faults, for those who want to see what it does under them.  Next
to the ledger's own connection there may be another one to its file, which edits rows, holds the
write lock, or refuses inserts; and the chain may be replaced by a copy with edits.

## Main definitions

* `Bench` — a ledger on the bench.
* `Bench.run`, `Bench.runUncancelled` — programs run on it.
* `Bench.overStore`, `Bench.reopen`, `Bench.openConfigured` — other stores under the same settings.
* `Bench.onFile`, `Bench.changeFile`, `Bench.begin`, `Bench.commit`, `Bench.editRows` — what another
  connection does.
* `Edit`, `Edit.applyAll` — edits of a copied chain.
-/

namespace AuditChain

/-- A ledger over a store with scripted faults. -/
structure Bench where
  /-- The ledger. -/
  ledger : Ledger (Scripted Site)
  /-- The configuration it came from. -/
  config : Config
  /-- The name of the ledger that the other connection leads to. -/
  path : String
  /-- The store was made in memory. -/
  inMemory : Bool

namespace Bench

variable {α : Type}

/-- The store behind the script. -/
def site (b : Bench) : Site :=
  b.ledger.store.inner

/-- Changes the wrapper of the store. -/
def mapStore (b : Bench) (f : Scripted Site → Scripted Site) : Bench :=
  { b with ledger := b.ledger.withStore (f b.ledger.store) }

/-- Changes the store behind the script. -/
def mapSite (b : Bench) (f : Site → Site) : Bench :=
  b.mapStore fun s => { s with inner := f s.inner }

/-- The same bench with the working directory in another state. -/
def withWorkspace (b : Bench) (w : Workspace) : Bench :=
  b.mapSite fun s => { s with workspace := w }

/-- Runs a program; the caller may have cancelled. -/
def run (p : LedgerProgram α) (b : Bench) : Except Crash α × Bench :=
  let (result, ledger) := b.ledger.run p
  (result, { b with ledger })

/-- Runs a program for a caller who never cancels. -/
def runUncancelled (p : LedgerProgram α) (b : Bench) : Except Crash α × Bench :=
  let (result, store) := p.run Scripted.respondUncancelled b.ledger.store
  (result, b.mapStore fun _ => store)

/-- The caller cancels, or comes with a fresh token. -/
def setCancelled (cancelled : Bool) (b : Bench) : Bench :=
  b.mapStore fun s => { s with cancelled }

/-- Adds faults to the script. -/
def addFaults (script : List (Operation × List Fault)) (b : Bench) : Bench :=
  b.mapStore fun s => s.addScript script

/-- The journal of the bench. -/
def journal (b : Bench) : Journal :=
  b.site.connection.latch.journal

/-- The same bench with another journal. -/
def withJournal (b : Bench) (journal : Journal) : Bench :=
  b.mapSite fun s =>
    { s with connection := { s.connection with latch := { s.connection.latch with journal } } }

/-- The journal is to crash at the next note of an insert. -/
def armed (b : Bench) : Bench :=
  b.withJournal { b.journal with armed := true }

/-- Forgets the record of requests. -/
def forgetCalls (b : Bench) : Bench :=
  b.mapStore fun s => { s with calls := [] }

/-- The requests on record, in order. -/
def calls (b : Bench) : List String :=
  b.ledger.store.calls.reverse

/-- All entries, in order; neither recorded nor subject to faults. -/
def entries (b : Bench) : Except Crash (Except StoreError (List Entry)) :=
  ((LedgerProgram.range 0 maxSequence maxSequence).runOn b.site).1

/-- The end of the chain; neither recorded nor subject to faults. -/
def tail (b : Bench) : Except Crash (Except StoreError (Option ChainTail)) :=
  (LedgerProgram.tail.runOn b.site).1

/-- Puts an event at the end of the chain without looking its key up. -/
def insertNext (event : Event) : LedgerProgram (Except StoreError Entry) :=
  LedgerProgram.tail.bind fun
  | .error e => .done (.error e)
  | .ok tail =>
    match ChainTail.nextLink? tail with
    | none => .crash .sequenceOverflow
    | some (sequence, previousHash) =>
      let entry := Entry.sealed sequence event previousHash
      (LedgerProgram.insert entry).bind fun reply => .done (reply.map fun () => entry)

/-! ### Other stores -/

/-- The files once the bench is closed. -/
def closed (b : Bench) : Workspace :=
  b.site.connection.close b.site.workspace b.site.workspace

/-- A bench with the default settings over the ledger of a name. -/
def ofFile (w : Workspace) (path : String) : Except StoreError Bench :=
  match w.openLedger path with
  | (.error e, _) => .error e
  | (.ok place, w) =>
    .ok { ledger := { store := { inner := ⟨w, .ledger place⟩ } }, config := {}, path,
          inMemory := false }

/-- The bench over another store, without the faults that were left, and with the same journal. -/
def overStore (b : Bench) (connection : Connection) (inMemory : Bool) : Bench :=
  let latch := { connection.latch with journal := b.journal }
  let store : Scripted Site :=
    { inner := ⟨b.site.workspace, { connection with latch }⟩, cancelled := b.ledger.store.cancelled }
  { b with ledger := b.ledger.withStore store, inMemory }

/-- The bench over a store in memory with these entries. -/
def load (b : Bench) (entries : List Entry) : Bench :=
  b.overStore (.memory (.ofEntries entries)) true

/-- Notes that what was opened is open. -/
def noteOpened {ε : Type} (b : Bench) (opened : α) : Except Crash (Except ε α) × Bench :=
  let (written, journal) := b.journal.write .opened
  (written.map fun () => .ok opened, b.withJournal journal)

/-- Opens the ledger of the other connection once more; answers where it is. -/
def openAgain (b : Bench) : Except Crash (Except StoreError LedgerPlace) × Bench :=
  let (result, w) := b.site.workspace.openLedger b.path
  let b := b.withWorkspace w
  match result with
  | .error e => (.ok (.error e), b)
  | .ok place => b.noteOpened place

/-- Opens that ledger and closes it. -/
def visit (b : Bench) : Except Crash (Except StoreError Unit) × Bench :=
  let (opened, b) := b.openAgain
  let w := b.site.workspace
  let b := match opened with
    | .ok (.ok (.file o)) =>
      if b.site.connection.leadsTo o.location then b else b.withWorkspace (o.close w w)
    | _ => b
  (opened.map fun result => result.map fun _ => (), b)

/-- The bench over a new connection to that ledger. -/
def reopen (b : Bench) : Except Crash (Except StoreError Unit) × Bench :=
  match b.openAgain with
  | (.error why, b) => (.error why, b)
  | (.ok (.error e), b) => (.ok (.error e), b)
  | (.ok (.ok place), b) => (.ok (.ok ()), b.overStore (.ledger place) false)

/-- The bench over the store that its configuration names. -/
def openConfigured (b : Bench) : Except Crash (Except AuditError Unit) × Bench :=
  let (result, w) := b.site.workspace.openStore b.config.store
  let b := b.withWorkspace w
  match result with
  | .error e => (.ok (.error e), b)
  | .ok connection =>
    let (noted, b) : Except Crash (Except AuditError Unit) × Bench :=
      if b.config.store.kind = .file then b.noteOpened () else (.ok (.ok ()), b)
    match noted with
    | .ok (.ok ()) => (.ok (.ok ()), b.overStore (connection.beside b.site.connection) false)
    | failed => (failed, b)

/-! ### Another connection -/

/-- What another connection does to its ledger file.  In no file there is nothing to be done, and what it
is not allowed to write stays as it is. -/
def onFile (b : Bench) (f : LedgerFile → Except FileError α × LedgerFile) :
    Except FileError α × Bench :=
  match b.site.workspace.reach b.path with
  | (.error e, w) => (.error (.unopened e), b.withWorkspace w)
  | (.ok (.nowhere _, _), w) => ((f {}).1, b.withWorkspace w)
  | (.ok (.file o, a), w) =>
    match (Workspace.look o.location a).run.run w with
    | (.error e, w) => (.error (.unopened e), b.withWorkspace w)
    | (.ok g, w) =>
      match f g.file, g.indexed with
      | (answer, file), true => (answer, b.withWorkspace (w.put o.location (.ledger file)))
      | (.error e, _), false => (.error e, b.withWorkspace w)
      | (.ok _, _), false => (.error (.unopened Table.readOnlyReport), b.withWorkspace w)

/-- What another connection does, if it is not refused, to its ledger file. -/
def changeFile (b : Bench) (f : LedgerFile → Except FileError LedgerFile) :
    Except FileError Unit × Bench :=
  b.onFile fun file =>
    match f file with
    | .error e => (.error e, file)
    | .ok file => (.ok (), file)

/-- Another connection takes the write lock.  A file that holds nothing yet is written at once, and a
journal is kept meanwhile. -/
def begin (b : Bench) : Except FileError Unit × Bench :=
  let (reached, w) := b.site.workspace.reach b.path
  let cramped := match reached with
    | .ok (.file o, _) =>
      Beside.isBlank (w.at? o.location) && Beside.isCramped o.location w
    | _ => false
  if cramped then (.error (.unopened .unopened), b.withWorkspace w)
  else b.changeFile LedgerFile.begin

/-- Another connection commits its transaction.  It has none in a file that it could open but not
read. -/
def commit (b : Bench) : Except FileError Unit × Bench :=
  match b.site.workspace.reach b.path with
  | (.error e, w) => (.error (.unopened e), b.withWorkspace w)
  | (.ok _, w) =>
    match (b.withWorkspace w).changeFile LedgerFile.commit with
    | (.error (.unopened _), b) => (.error .notBegun, b)
    | answer => answer

/-- Edits rows, after lifting the triggers that guard them unless they are kept; answers the number
of rows changed.  The triggers stay lifted also if the edit is refused. -/
def editRows (b : Bench) (keepTriggers : Bool) (f : Table → Except EditError (Nat × Table)) :
    Except FileError Nat × Bench :=
  b.onFile fun file => file.edit fun t =>
    let t := if keepTriggers then t else t.unguard
    match f t with
    | .error e => (.error e, t)
    | .ok (n, t) => (.ok n, t)

end Bench

/-! ### Edited chains -/

/-- An edit of the entry at a sequence. -/
structure Edit where
  /-- The sequence of the entry. -/
  sequence : UInt64
  /-- The fields to set, under their names in JSON. -/
  fields : List (String × Json.Value) := []
  /-- The entry gets the hash that fits. -/
  rehash : Bool := false
  /-- The entry is left out. -/
  drop : Bool := false

namespace Edit

/-- An entry with one field set; there is none if the value does not fit. -/
def setField (e : Entry) (name : String) (v : Json.Value) : Option Entry :=
  let changed :=
    if ["sequence", "previous_hash", "hash"].contains name then e.toJson.setMember name v
    else e.toJson.setMember "event" (e.event.toJson.setMember name v)
  (Json.decode Json.entry changed.compact).toOption

/-- An entry after an edit; it is none once the entry is left out.  There is no answer if a value does
not fit, whether the entry is left out or not. -/
def apply (d : Edit) (e : Entry) : Option (Option Entry) :=
  (d.fields.foldlM (fun e (name, v) => setField e name v) e).map fun (e : Entry) =>
    if d.drop then none else some (if d.rehash then e.reseal else e)

/-- An entry after edits.  Those that come after it was left out are not looked at. -/
def applyEach : List Edit → Entry → Option (Option Entry)
  | [], e => some (some e)
  | d :: edits, e =>
    match d.apply e with
    | some (some e) => applyEach edits e
    | settled => settled

/-- A chain after edits, each of the entry that has its sequence before. -/
def applyAll (edits : List Edit) (entries : List Entry) : Option (List Entry) :=
  (entries.mapM fun e => applyEach (edits.filter fun d => d.sequence == e.sequence) e).map
    fun changed => changed.filterMap id

end Edit

end AuditChain
