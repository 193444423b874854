import AuditChain.CommandLine.Arguments
import AuditChain.Json.Ledger
import AuditChain.Shop.Drill
import AuditChain.Shop.Lifecycle
import AuditChain.Shop.Storm
import AuditChain.Shop.Writers

/-!
# Commands carried out

What a command prints, how it ends, and what it leaves in the working directory.  The scenarios run
on ledgers of their own in memory; the other commands open the ledger that the settings name.

## Main definitions

* `CommandLine.Surroundings` — the time and the key that a command may need.
* `CommandLine.Transcript` — what is printed, and how the command ends.
* `CommandLine.execute` — a command carried out.
-/

namespace AuditChain.CommandLine

/-- What a command may need from outside. -/
structure Surroundings where
  /-- The time. -/
  now : Timestamp
  /-- A key that was not used before. -/
  freshKey : DedupKey

/-- What a command prints, and how it ends. -/
structure Transcript where
  /-- The status with which it ends. -/
  status : UInt32 := 0
  /-- The lines it prints. -/
  output : List String := []
  /-- The lines it prints among its errors. -/
  errors : List String := []
  deriving DecidableEq, Repr

/-- Why a command fails. -/
inductive Failure where
  /-- With an error of the library. -/
  | audit (e : AuditError)
  /-- With an error of the store. -/
  | store (e : StoreError)
  /-- Because the chain did not pass verification. -/
  | violation (v : Verify.Violation)
  /-- Because a file could not be written. -/
  | os (e : OsError)
  /-- By a crash. -/
  | crash (why : Crash)
  deriving DecidableEq, Repr

namespace Failure

/-- The wording of a failure. -/
def message : Failure → String
  | .audit e => e.message
  | .store e => e.message
  | .violation v => s!"chain verification failed: {v.message}"
  | .os e => e.message
  | .crash why => why.message

/-- The transcript of a command that printed some lines and then failed. -/
def transcript (f : Failure) (output : List String) : Transcript :=
  match f with
  | .crash why => ⟨101, output, [why.message]⟩
  | f => ⟨1, output, [s!"Demo error: {f.message}"]⟩

/-- The outcome of a run, its errors and crashes taken together. -/
def ofRun {ε α : Type} (failed : ε → Failure) : Except Crash (Except ε α) → Except Failure α
  | .error why => .error (.crash why)
  | .ok (.error e) => .error (failed e)
  | .ok (.ok a) => .ok a

end Failure

/-! ### Scenarios -/

/-- What stands above the scenarios. -/
def banner : List String :=
  ["",
    "tamperlog: Tamper-evident Audit Chain",
    "Shop Reference Demo",
    "=====================================",
    "",
    "Per delivered event:",
    "  [1] Dedup lookup: a redelivered key returns the stored entry",
    "  [2] Read the chain tail under the tail lock",
    "  [3] Link: sequence = tail + 1, previous hash = tail hash (genesis on empty)",
    "  [4] Hash: SHA-256 over the canonical encoding and the previous hash",
    "  [5] Insert; a lost race on sequence or key retries from [1]",
    ""]

/-- A scenario: its title, and its account. -/
structure Scenario where
  /-- The title. -/
  title : String
  /-- The account, or why there is none. -/
  account : Except Failure (List String)

/-- The life of a product. -/
def lifecycle (c : Config) : Scenario :=
  let l := Ledger.scratch c
  ⟨"Scenario 1: Product Lifecycle", Failure.ofRun .audit (l.run (Shop.lifecycleScenario l)).1⟩

/-- A storm of redeliveries. -/
def redelivery (c : Config) : Scenario :=
  ⟨"Scenario 2: Redelivery Storm",
    (Failure.ofRun .audit (Shop.storm (Ledger.scratch c) Shop.stormEvents).1).map Shop.stormText⟩

/-- Many writers at once. -/
def concurrent (c : Config) (workers : Nat) : Scenario :=
  ⟨"Scenario 3: Concurrent Writers",
    (Failure.ofRun .audit (Shop.writers (Ledger.scratch c) workers).1).map Shop.writersText⟩

/-- A drill with forged entries. -/
def tamper (c : Config) (now : Timestamp) : Scenario :=
  let l := Ledger.scratch c
  ⟨"Scenario 4: Tamper Drill", Failure.ofRun .audit (l.run (Shop.drillScenario l now)).1⟩

/-- Prints scenarios one after another, up to the first that fails. -/
def tell (before : List String) : List Scenario → Transcript
  | [] => { output := before ++ ["All selected scenarios completed successfully."] }
  | s :: rest =>
    let before := before ++ [s!"=== {s.title} ===", ""]
    match s.account with
    | .ok lines => tell (before ++ lines) rest
    | .error f => f.transcript before

/-! ### The ledger -/

/-- Runs a program on the ledger that settings name.  What it comes to is told before the ledger is
closed. -/
def onLedger {ε α : Type} (failed : ε → Failure) (w : Workspace) (c : Config)
    (p : Ledger Site → LedgerProgram (Except ε α))
    (tell : Workspace → α → Transcript × Workspace) : Transcript × Workspace :=
  match Ledger.openAt w c with
  | (.error e, w) => (Failure.transcript (.audit e) [], w)
  | (.ok l, _) =>
    let (result, l) := l.run (p l)
    let left := l.store.workspace
    let (transcript, w) := match Failure.ofRun failed result with
      | .ok a => tell left a
      | .error f => (f.transcript [], left)
    (transcript, l.store.connection.close left w)

/-- The event of a submission. -/
def Submission.event (s : Submission) (around : Surroundings) : Event where
  dedupKey := (s.dedupKey.map DedupKey.mk).getD around.freshKey
  entityName := s.entity
  action := s.action
  entityId := s.entityId
  oldValues := s.oldValues
  newValues := s.newValues
  userId := s.userId
  userEmail := s.userEmail
  occurredAt := around.now
  correlationId := s.correlationId

/-- What is printed of an append. -/
def outcomeText : Outcome → List String
  | .appended e =>
    [s!"Appended   sequence {e.sequence}  key {e.event.dedupKey.text}",
      s!"  previous hash  {e.previousHash}",
      s!"  hash           {e.hash}"]
  | .duplicate e =>
    [s!"Duplicate  key {e.event.dedupKey.text} already stored at sequence {e.sequence}"]

/-- The range that bounds name: from zero and up to the tail unless told otherwise.  An empty ledger
without any bound has none; with a lower bound it ends at zero. -/
def resolveRange (first last : Option UInt64) (tail : Option ChainTail) :
    Option (UInt64 × UInt64) :=
  match last, tail with
  | some last, _ => some (first.getD 0, last)
  | none, some tail => some (first.getD 0, tail.sequence)
  | none, none => first.map fun first => (first, 0)

/-- Runs a program on the range that bounds name; the tail is read only where it is the upper
bound. -/
def withRange {α : Type} (first last : Option UInt64)
    (p : Option (UInt64 × UInt64) → LedgerProgram (Except AuditError α)) :
    LedgerProgram (Except Failure α) :=
  let on (tail : Option ChainTail) : LedgerProgram (Except Failure α) :=
    (p (resolveRange first last tail)).bind fun result => .done (result.mapError .audit)
  if last.isSome then on none
  else
    LedgerProgram.tail.bind fun
    | .error e => .done (.error (.store e))
    | .ok tail => on tail

/-- Verifies the range that bounds name. -/
def verifyRange (first last : Option UInt64) (l : Ledger Site) :
    LedgerProgram (Except Failure Verify.Report) :=
  withRange first last fun
  | some (first, last) => l.verify first last
  | none => l.verifyAll

/-- Exports the range that bounds name. -/
def exportBounds (now : Timestamp) (first last : Option UInt64) :
    LedgerProgram (Except Failure Snapshot) :=
  withRange first last fun
  | some (first, last) => Query.exportRange now first last
  | none => Query.exportAll now

/-- What is printed of a verification. -/
def reportText (r : Verify.Report) : List String :=
  let last := (r.lastVerified.map fun s => toString s).getD "-"
  [s!"Range:            {r.first}..={r.last}",
    s!"Entries checked:  {r.entriesChecked}",
    s!"Last verified:    {last}",
    s!"Outcome:          {r.finding.message}"]

/-- One line of a list: sequence, action, entity, hash and time. -/
def row (sequence action entity hash time : String) : String :=
  " ".intercalate [column .right 6 sequence, "", column .left 9 action, column .left 24 entity,
    column .left 10 hash, time]

/-- What is printed of an entry in a list. -/
def entryRow (e : Entry) : String :=
  row (toString e.sequence) e.event.action.name s!"{e.event.entityName}/{e.event.entityId}"
    (shortHash e.hash) e.event.occurredAt.compactOffset

/-- A truth value in words. -/
def yesNo (b : Bool) : String :=
  if b then "yes" else "no"

/-- What is printed of a page. -/
def pageText (p : Page Entry) : List String :=
  let neighbours :=
    if p.hasPrevious || p.hasNext then
      ["", s!"previous: {yesNo p.hasPrevious}  next: {yesNo p.hasNext}"]
    else []
  [s!"Page {p.pageNumber} of {p.totalPages}  ({p.totalCount} entries total)",
    "",
    row "SEQ" "ACTION" "ENTITY" "HASH" "OCCURRED AT"] ++
    p.items.map entryRow ++ neighbours

/-- Prints a slice, or writes it to a file. -/
def deliver (w : Workspace) (s : Snapshot) : (out : Option String) → Transcript × Workspace
  | none => ({ output := [s.toJson.pretty] }, w)
  | some path =>
    match w.writeText path s.toJson.pretty with
    | .error e => (Failure.transcript (.os e) [], w)
    | .ok w => ({ errors := [s!"Exported {s.entries.length} entries to {path}"] }, w)

/-! ### Carrying out -/

/-- The settings that an invocation names. -/
def settings (w : Workspace) (i : Invocation) : Except AuditError Config := do
  let config ← match i.config with
    | some path => Config.load w path
    | none => Config.shop.check
  match i.ledger with
  | none => config.check
  | some path =>
    Config.check { config with store := { config.store with kind := .file, path := some path } }

/-- Carries out a command under settings. -/
def perform (around : Surroundings) (w : Workspace) (c : Config) : Command → Transcript × Workspace
  | .runAll =>
    (tell banner [lifecycle c, redelivery c, concurrent c defaultWorkers, tamper c around.now], w)
  | .lifecycle => (tell banner [lifecycle c], w)
  | .redelivery => (tell banner [redelivery c], w)
  | .concurrent workers => (tell banner [concurrent c workers], w)
  | .tamper => (tell banner [tamper c around.now], w)
  | .append s =>
    onLedger .audit w c (fun l => l.submit (s.event around)) fun w outcome =>
      ({ output := outcomeText outcome }, w)
  | .verify first last =>
    onLedger id w c (verifyRange first last) fun w report =>
      match report.violation? with
      | none => ({ output := reportText report }, w)
      | some v => (Failure.transcript (.violation v) (reportText report), w)
  | .list page size =>
    onLedger .audit w c (fun l => l.listPage page (size.getD l.defaultPageSize)) fun w page =>
      ({ output := pageText page }, w)
  | .export first last out =>
    onLedger id w c (fun _ => exportBounds around.now first last) fun w slice =>
      deliver w slice out

/-- Carries out an invocation in a working directory. -/
def execute (around : Surroundings) (w : Workspace) (i : Invocation) : Transcript × Workspace :=
  match settings w i with
  | .error e => (Failure.transcript (.audit e) [], w)
  | .ok c => perform around w c i.command

/-- The lines of a transcript's output as text. -/
def Transcript.text (t : Transcript) : String :=
  String.join (t.output.map fun line => line ++ "\n")

end AuditChain.CommandLine
