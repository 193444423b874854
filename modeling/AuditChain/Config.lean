import AuditChain.Error
import AuditChain.Json.Value
import AuditChain.Query
import AuditChain.Toml.Document
import AuditChain.Workspace

/-!
# Configuration

The settings of the engine, the query facade, the verifier and the store.  Every setting has a
default, so an empty document is a configuration; unknown names are refused.

## Main definitions

* `Config` — the settings by section.
* `Config.Source`, `Config.Source.config?` — what documents of a form say, and a configuration from a
  document.
* `Config.check` — the conditions under which settings can be used.
* `Config.read`, `Config.load` — documents read and checked.
* `Config.policy` — the retry policy of the engine's settings.
-/

namespace AuditChain

/-- Which store holds the chain. -/
inductive StoreKind where
  /-- In memory; the chain goes away with the process. -/
  | memory
  /-- In a ledger file. -/
  | file
  deriving DecidableEq, Repr

/-- The name of a kind of store in a document. -/
def StoreKind.name : StoreKind → String
  | .memory => "memory"
  | .file => "sqlite"

/-- The kind of store of a name. -/
def StoreKind.ofName? (s : String) : Option StoreKind :=
  [memory, file].find? fun k => k.name == s

/-- How hard the engine retries. -/
structure EngineSettings where
  /-- How many attempts may race for a sequence. -/
  maxAppendAttempts : UInt32 := 8
  /-- How many times an unavailable store is asked again. -/
  maxTransientRetries : UInt32 := 5
  /-- The wait before the first retry, in milliseconds. -/
  backoffBaseMs : UInt64 := 5
  /-- The longest wait, in milliseconds. -/
  backoffMaxMs : UInt64 := 500
  deriving DecidableEq, Repr

/-- How pages are cut. -/
structure QuerySettings where
  /-- The size of a page, unless told otherwise. -/
  defaultPageSize : UInt64 := 10
  /-- The greatest size of a page. -/
  maxPageSize : UInt64 := 100
  deriving DecidableEq, Repr

/-- How chains are verified. -/
structure VerifySettings where
  /-- How many entries are read at a time. -/
  batchSize : UInt64 := 256
  deriving DecidableEq, Repr

/-- Where the chain is stored. -/
structure StoreSettings where
  /-- The kind of store. -/
  kind : StoreKind := .memory
  /-- The path of the ledger file. -/
  path : Option String := none
  /-- How long a writer waits for a lock, in milliseconds. -/
  busyTimeoutMs : UInt64 := 5000
  deriving DecidableEq, Repr

/-- All settings. -/
structure Config where
  /-- How hard the engine retries. -/
  engine : EngineSettings := {}
  /-- How pages are cut. -/
  query : QuerySettings := {}
  /-- How chains are verified. -/
  verify : VerifySettings := {}
  /-- Where the chain is stored. -/
  store : StoreSettings := {}
  deriving DecidableEq, Repr

namespace Config

/-- The retry policy of the engine's settings. -/
def policy (c : Config) : RetryPolicy where
  maxAttempts := c.engine.maxAppendAttempts
  maxTransientRetries := c.engine.maxTransientRetries
  backoffBase := Duration.ofMillis c.engine.backoffBaseMs
  backoffMax := Duration.ofMillis c.engine.backoffMaxMs

/-- How long a writer waits for a lock. -/
def busyTimeout (c : Config) : Duration :=
  Duration.ofMillis c.store.busyTimeoutMs

/-! ### Sections of documents -/

/-- How documents of one form say what settings need; their values are of type `V`. -/
structure Source (V : Type) where
  /-- The members of a table. -/
  members? : V → Option (List (String × V))
  /-- The items of a list. -/
  items? : V → Option (List V)
  /-- A list may have items beyond those that have names. -/
  allowsSurplus : Bool
  /-- A number that is not negative. -/
  natural? : V → Option Nat
  /-- A text. -/
  text? : V → Option String
  /-- The value stands for a text that is absent. -/
  isAbsent : V → Bool
  /-- The value says nothing, as may stand under the name of an alternative. -/
  isUnit : V → Bool

namespace Source

variable {V : Type}

/-- The values of a section by the names of its settings: a table of some of them, or a list of
their values in order. -/
def section? (src : Source V) (names : List String) (v : V) : Option (List (Option V)) :=
  match src.members? v, src.items? v with
  | some members, _ =>
    if members.all fun m => names.contains m.1 then some (names.map fun n => members.lookup n)
    else none
  | none, some items =>
    if names.length < items.length ∧ !src.allowsSurplus then none
    else some (names.zipIdx.map fun p => items[p.2]?)
  | none, none => none

/-- A setting that is there must be readable; one that is not keeps its default. -/
def orDefault {α : Type} (read : V → Option α) (default : α) : Option V → Option α
  | none => some default
  | some v => read v

/-- An integer that is a word of 64 bits. -/
def word? (src : Source V) (v : V) : Option UInt64 :=
  (src.natural? v).bind fun n => if n < UInt64.size then some (UInt64.ofNat n) else none

/-- An integer that is a word of 32 bits. -/
def smallWord? (src : Source V) (v : V) : Option UInt32 :=
  (src.natural? v).bind fun n => if n < UInt32.size then some (UInt32.ofNat n) else none

/-- A path, which may be absent. -/
def path? (src : Source V) (v : V) : Option (Option String) :=
  if src.isAbsent v then some none else (src.text? v).map some

/-- A kind of store: its name, or a table with the name and nothing under it. -/
def storeKind? (src : Source V) (v : V) : Option StoreKind :=
  match src.text? v, src.members? v with
  | some name, _ => StoreKind.ofName? name
  | none, some [(name, v)] => if src.isUnit v then StoreKind.ofName? name else none
  | none, _ => none

/-- The engine's section. -/
def engine? (src : Source V) (v : V) : Option EngineSettings := do
  let d : EngineSettings := {}
  match ← src.section? ["max_append_attempts", "max_transient_retries", "backoff_base_ms",
      "backoff_max_ms"] v with
  | [attempts, retries, base, longest] =>
    return {
      maxAppendAttempts := ← orDefault src.smallWord? d.maxAppendAttempts attempts
      maxTransientRetries := ← orDefault src.smallWord? d.maxTransientRetries retries
      backoffBaseMs := ← orDefault src.word? d.backoffBaseMs base
      backoffMaxMs := ← orDefault src.word? d.backoffMaxMs longest }
  | _ => none

/-- The query facade's section. -/
def query? (src : Source V) (v : V) : Option QuerySettings := do
  let d : QuerySettings := {}
  match ← src.section? ["default_page_size", "max_page_size"] v with
  | [size, longest] =>
    return {
      defaultPageSize := ← orDefault src.word? d.defaultPageSize size
      maxPageSize := ← orDefault src.word? d.maxPageSize longest }
  | _ => none

/-- The verifier's section. -/
def verify? (src : Source V) (v : V) : Option VerifySettings := do
  let d : VerifySettings := {}
  match ← src.section? ["batch_size"] v with
  | [size] => return { batchSize := ← orDefault src.word? d.batchSize size }
  | _ => none

/-- The store's section. -/
def store? (src : Source V) (v : V) : Option StoreSettings := do
  let d : StoreSettings := {}
  match ← src.section? ["backend", "path", "busy_timeout_ms"] v with
  | [kind, path, timeout] =>
    return {
      kind := ← orDefault src.storeKind? d.kind kind
      path := ← orDefault src.path? d.path path
      busyTimeoutMs := ← orDefault src.word? d.busyTimeoutMs timeout }
  | _ => none

/-- The configuration of a document. -/
def config? (src : Source V) (v : V) : Option Config := do
  match ← src.section? ["engine", "query", "verify", "store"] v with
  | [engine, query, verify, store] =>
    return {
      engine := ← orDefault src.engine? {} engine
      query := ← orDefault src.query? {} query
      verify := ← orDefault src.verify? {} verify
      store := ← orDefault src.store? {} store }
  | _ => none

/-- Settings in TOML.  Nothing is absent, and an empty table or list says nothing. -/
def toml : Source Toml.Value where
  members?
    | .table members => some members
    | _ => none
  items?
    | .list items => some items
    | _ => none
  allowsSurplus := true
  natural?
    | .integer n => if 0 ≤ n then some n.toNat else none
    | _ => none
  text?
    | .text s => some s
    | _ => none
  isAbsent _ := false
  isUnit
    | .table members => members.isEmpty
    | .list items => items.isEmpty
    | _ => false

/-- Settings in JSON.  Null stands for what is absent, and says nothing. -/
def json : Source Json.Value where
  members?
    | .record members => some members
    | _ => none
  items?
    | .list items => some items
    | _ => none
  allowsSurplus := false
  natural?
    | .number (.natural n) => some n.toNat
    | _ => none
  text?
    | .text s => some s
    | _ => none
  isAbsent
    | .null => true
    | _ => false
  isUnit
    | .null => true
    | _ => false

end Source

/-! ### Conditions -/

/-- Why settings cannot be used. -/
inductive Flaw where
  /-- No attempt is allowed. -/
  | noAttempts
  /-- The first wait is longer than the longest. -/
  | backoffOrder (base longest : UInt64)
  /-- A page size is zero. -/
  | emptyPage
  /-- The usual page is larger than the greatest. -/
  | pageOrder (size longest : UInt64)
  /-- A batch holds nothing. -/
  | emptyBatch
  /-- A ledger file is wanted and not named. -/
  | noPath
  deriving DecidableEq, Repr

/-- The wording of a flaw. -/
def Flaw.message : Flaw → String
  | .noAttempts => "engine.max_append_attempts must be at least 1"
  | .backoffOrder base longest =>
    s!"engine.backoff_base_ms ({base}) exceeds engine.backoff_max_ms ({longest})"
  | .emptyPage => "query page sizes must be at least 1"
  | .pageOrder size longest =>
    s!"query.default_page_size ({size}) exceeds query.max_page_size ({longest})"
  | .emptyBatch => "verify.batch_size must be at least 1"
  | .noPath => "store.path is required when store.backend = \"sqlite\""

/-- The first condition that settings do not meet. -/
def flaw? (c : Config) : Option Flaw :=
  if c.engine.maxAppendAttempts = 0 then some .noAttempts
  else if c.engine.backoffMaxMs < c.engine.backoffBaseMs then
    some (.backoffOrder c.engine.backoffBaseMs c.engine.backoffMaxMs)
  else if c.query.defaultPageSize = 0 ∨ c.query.maxPageSize = 0 then some .emptyPage
  else if c.query.maxPageSize < c.query.defaultPageSize then
    some (.pageOrder c.query.defaultPageSize c.query.maxPageSize)
  else if c.verify.batchSize = 0 then some .emptyBatch
  else if c.store.kind = .file ∧ c.store.path = none then some .noPath
  else none

/-- Settings that can be used, or why they cannot. -/
def check (c : Config) : Except AuditError Config :=
  match c.flaw? with
  | some flaw => .error (.config flaw.message)
  | none => .ok c

/-! ### Documents -/

/-- Reads and checks a document. -/
def read (document : String) : Except AuditError Config :=
  match (Toml.read document).bind Source.toml.config? with
  | none => .error (.config "failed to parse tamperlog TOML")
  | some c => c.check

/-- Reads and checks the document in a file. -/
def load (w : Workspace) (path : String) : Except AuditError Config :=
  match w.readText path with
  | .error e => .error (.config s!"failed to read config file '{path}': {e.message}")
  | .ok document => read document

/-- The configuration that JSON says, not checked. -/
def ofJson? (v : Json.Value) : Option Config :=
  Source.json.config? v

/-- A configuration as JSON. -/
def toJson (c : Config) : Json.Value :=
  .record [
    ("engine", .record [
      ("max_append_attempts", .nat c.engine.maxAppendAttempts.toNat),
      ("max_transient_retries", .nat c.engine.maxTransientRetries.toNat),
      ("backoff_base_ms", .word c.engine.backoffBaseMs),
      ("backoff_max_ms", .word c.engine.backoffMaxMs)]),
    ("query", .record [
      ("default_page_size", .word c.query.defaultPageSize),
      ("max_page_size", .word c.query.maxPageSize)]),
    ("verify", .record [("batch_size", .word c.verify.batchSize)]),
    ("store", .record [
      ("backend", .text c.store.kind.name),
      ("path", Json.Value.optional Json.Value.text c.store.path),
      ("busy_timeout_ms", .word c.store.busyTimeoutMs)])]

/-- The settings of the shop: more attempts, shorter waits and smaller batches than usual. -/
def shop : Config where
  engine := { maxAppendAttempts := 12, backoffBaseMs := 1, backoffMaxMs := 50 }
  verify := { batchSize := 64 }

end Config

end AuditChain
