import AuditChain.Event

/-!
# The arguments of the command line

A command line names a command, with options before and after its name: two that every command
takes, and those of the command.  Every option takes one value, as the next argument or after an
equals sign, and may be given once at either place.

## Main definitions

* `CommandLine.Command`, `CommandLine.Invocation` — what is asked for.
* `CommandLine.Usage` — why there is nothing to carry out.
* `CommandLine.globals`, `CommandLine.table` — the options and the commands.
* `CommandLine.parse` — the arguments read.
-/

namespace AuditChain.CommandLine

/-! ### What is asked for -/

/-- The event that an append is asked to write. -/
structure Submission where
  /-- The kind of entity. -/
  entity : String
  /-- What happened to it. -/
  action : Action
  /-- Which entity. -/
  entityId : String
  /-- The key, if it is not to be made up. -/
  dedupKey : Option String
  /-- The values before. -/
  oldValues : Option String
  /-- The values after. -/
  newValues : Option String
  /-- Who did it. -/
  userId : Option String
  /-- How to reach them. -/
  userEmail : Option String
  /-- What ties the event to a request. -/
  correlationId : Option String
  deriving DecidableEq, Repr

/-- A command. -/
inductive Command where
  /-- All four scenarios. -/
  | runAll
  /-- The life of a product. -/
  | lifecycle
  /-- A storm of redeliveries. -/
  | redelivery
  /-- Many writers at once. -/
  | concurrent (workers : Nat)
  /-- A drill with forged entries. -/
  | tamper
  /-- Append one event. -/
  | append (s : Submission)
  /-- Verify a range, up to the tail unless told otherwise. -/
  | verify (first last : Option UInt64)
  /-- List a page, the newest entries first. -/
  | list (page : UInt64) (size : Option UInt64)
  /-- Export a range, to a file if one is named. -/
  | export (first last : Option UInt64) (out : Option String)
  deriving DecidableEq, Repr

/-- A command with the options that every command takes. -/
structure Invocation where
  /-- The file with the settings. -/
  config : Option String := none
  /-- The ledger file, in place of the one that the settings name. -/
  ledger : Option String := none
  /-- The command. -/
  command : Command
  deriving DecidableEq, Repr

/-- What help is about. -/
inductive Topic where
  /-- All commands. -/
  | everything
  /-- One command. -/
  | command (name : String)
  /-- Help itself. -/
  | help
  deriving DecidableEq, Repr

/-- Why there is no command to carry out. -/
inductive Usage where
  /-- Help was asked for, in full or not. -/
  | help (topic : Topic) (full : Bool)
  /-- No command is named. -/
  | noCommand
  /-- There is no such command, option or further argument. -/
  | unknown (argument : String)
  /-- An option is given twice. -/
  | repeated (name : String)
  /-- An option has no value. -/
  | noValue (name : String)
  /-- A value is not of the kind that the option takes. -/
  | badValue (name value : String)
  /-- An option that the command needs is missing. -/
  | missing (name : String)
  deriving DecidableEq, Repr

/-! ### Options -/

/-- What kind of value an option takes. -/
inductive Kind where
  /-- Any text. -/
  | text
  /-- A path, which is not empty. -/
  | path
  /-- A number of 64 bits. -/
  | word
  /-- The name of an action. -/
  | action
  deriving DecidableEq, Repr

/-- The number that decimal digits denote, with or without a plus sign. -/
def word? (s : String) : Option UInt64 :=
  let digits := match s.toList with
    | '+' :: rest => rest
    | cs => cs
  if digits.isEmpty || !digits.all Text.isDigit then none
  else
    let n := Text.valueOf digits
    if n < UInt64.size then some (UInt64.ofNat n) else none

/-- A value is of a kind. -/
def Kind.accepts : Kind → String → Bool
  | .text, _ => true
  | .path, s => s != ""
  | .word, s => (word? s).isSome
  | .action, s => (Action.parse s).isOk

/-- An option. -/
structure Spec where
  /-- Its name. -/
  name : String
  /-- The kind of its value. -/
  kind : Kind
  /-- What it is for. -/
  about : String := ""
  /-- The command needs it. -/
  needed : Bool := false
  /-- The value that is taken if it is not given. -/
  default : Option String := none
  deriving DecidableEq, Repr

/-- What there is to know of a command. -/
structure CommandSpec where
  /-- Its name. -/
  name : String
  /-- What it does. -/
  about : String
  /-- Its options, those that every command takes left out. -/
  specs : List Spec := []
  deriving DecidableEq, Repr

/-- The options that every command takes. -/
def globals : List Spec :=
  [⟨"config", .path, "TOML configuration file. Defaults to the embedded shop settings", false,
      none⟩,
    ⟨"db", .path, "Use a SQLite ledger at this path, overriding `[store]`", false, none⟩]

/-- The number of writers that take part, unless told otherwise. -/
def defaultWorkers : Nat := 16

/-- The page that is listed, unless told otherwise. -/
def defaultPage : UInt64 := 1

/-- The commands. -/
def table : List CommandSpec :=
  [⟨"run-all", "Run all four shop scenarios in sequence", []⟩,
    ⟨"product-lifecycle", "Scenario 1: genesis, linking, and a redelivered create", []⟩,
    ⟨"redelivery", "Scenario 2: duplicate publishes and lost acks", []⟩,
    ⟨"concurrent", "Scenario 3: concurrent writers across two engines",
      [⟨"workers", .word, "", false, some (toString defaultWorkers)⟩]⟩,
    ⟨"tamper", "Scenario 4: edited and re-hashed entries", []⟩,
    ⟨"append", "Append one event to the ledger",
      [⟨"entity", .text, "", true, none⟩,
        ⟨"action", .action, "created, modified, or deleted", true, none⟩,
        ⟨"entity-id", .text, "", true, none⟩,
        ⟨"dedup-key", .text, "Defaults to a fresh random key", false, none⟩,
        ⟨"old-values", .text, "", false, none⟩,
        ⟨"new-values", .text, "", false, none⟩,
        ⟨"user-id", .text, "", false, none⟩,
        ⟨"user-email", .text, "", false, none⟩,
        ⟨"correlation-id", .text, "", false, none⟩]⟩,
    ⟨"verify", "Verify the ledger, or the inclusive range `--from..=--to`",
      [⟨"from", .word, "", false, none⟩, ⟨"to", .word, "", false, none⟩]⟩,
    ⟨"list", "List ledger entries, newest first",
      [⟨"page", .word, "", false, some (toString defaultPage)⟩,
        ⟨"page-size", .word, "", false, none⟩]⟩,
    ⟨"export", "Export ledger entries as JSON",
      [⟨"from", .word, "", false, none⟩, ⟨"to", .word, "", false, none⟩,
        ⟨"out", .path, "Write to this file instead of stdout", false, none⟩]⟩]

/-- The command of a name, if there is one. -/
def commandSpec? (name : String) : Option CommandSpec :=
  table.find? fun c => c.name == name

/-- The values of options under their names. -/
abbrev Values := List (String × String)

/-- An argument that begins like an option. -/
def isDashed (s : String) : Bool :=
  s.startsWith "-" && s != "-"

/-- The name of an option, and the value after its equals sign if there is one. -/
def splitOption (s : String) : String × Option String :=
  let body := s.toList.drop 2
  let name := body.takeWhile fun c => c != '='
  match body.drop name.length with
  | [] => (String.ofList name, none)
  | _ :: value => (String.ofList name, some (String.ofList value))

/-- Adds the value of an option. -/
def addValue (specs : List Spec) (found : Values) (name value : String) : Except Usage Values :=
  match specs.find? fun o => o.name == name with
  | none => .error (.unknown name)
  | some o =>
    if o.kind.accepts value then .ok (found ++ [(name, value)]) else .error (.badValue name value)

/-- Reads options up to the first argument that is none; what follows is returned as well.  After
two dashes there are no more options.  Asking for help, about `topic`, ends the reading. -/
def readOptions (topic : Topic) (specs : List Spec) : (found : Values) → List String →
    Except Usage (Values × List String)
  | found, [] => .ok (found, [])
  | found, arg :: args =>
    if arg = "--" then
      match args with
      | [] => .ok (found, [])
      | extra :: _ => .error (.unknown extra)
    else if arg.startsWith "--" then
      let (name, value?) := splitOption arg
      if name = "help" ∧ value? = none then .error (.help topic true)
      else if specs.all fun o => o.name != name then .error (.unknown arg)
      else if (found.lookup name).isSome then .error (.repeated name)
      else
        match value?, args with
        | some value, args =>
          match addValue specs found name value with
          | .ok found => readOptions topic specs found args
          | .error e => .error e
        | none, value :: args =>
          if isDashed value then .error (.noValue name)
          else
            match addValue specs found name value with
            | .ok found => readOptions topic specs found args
            | .error e => .error e
        | none, [] => .error (.noValue name)
    else if isDashed arg then
      .error (if arg.startsWith "-h" then .help topic false else .unknown arg)
    else .ok (found, arg :: args)

/-! ### Commands -/

/-- A value that must be there. -/
def needed (values : Values) (name : String) : Except Usage String :=
  match values.lookup name with
  | some v => .ok v
  | none => .error (.missing name)

/-- The event of an append. -/
def submission (values : Values) : Except Usage Submission := do
  let entity ← needed values "entity"
  let action ← needed values "action"
  let entityId ← needed values "entity-id"
  match Action.parse action with
  | .error _ => throw (.badValue "action" action)
  | .ok action =>
    return {
      entity
      action
      entityId
      dedupKey := values.lookup "dedup-key"
      oldValues := values.lookup "old-values"
      newValues := values.lookup "new-values"
      userId := values.lookup "user-id"
      userEmail := values.lookup "user-email"
      correlationId := values.lookup "correlation-id" }

/-- The command of a name and the values of its options. -/
def command (name : String) (values : Values) : Except Usage Command :=
  let number? (option : String) : Option UInt64 := (values.lookup option).bind word?
  match name with
  | "run-all" => .ok .runAll
  | "product-lifecycle" => .ok .lifecycle
  | "redelivery" => .ok .redelivery
  | "concurrent" => .ok (.concurrent (((number? "workers").map UInt64.toNat).getD defaultWorkers))
  | "tamper" => .ok .tamper
  | "append" => (submission values).map .append
  | "verify" => .ok (.verify (number? "from") (number? "to"))
  | "list" => .ok (.list ((number? "page").getD defaultPage) (number? "page-size"))
  | "export" => .ok (.export (number? "from") (number? "to") (values.lookup "out"))
  | other => .error (.unknown other)

/-- What asking for help leads to; help on a command that is not there is rejected. -/
def help : List String → Usage
  | [] => .help .everything true
  | [name] =>
    if name = "help" then .help .help true
    else if (commandSpec? name).isSome then .help (.command name) true
    else .unknown name
  | _ :: extra :: _ => .unknown extra

/-- Reads arguments. -/
def parse (args : List String) : Except Usage Invocation := do
  let (before, rest) ← readOptions .everything globals [] args
  match rest with
  | [] => throw .noCommand
  | "help" :: names => throw (help names)
  | name :: args =>
    match commandSpec? name with
    | none => throw (.unknown name)
    | some c =>
      let (after, rest) ← readOptions (.command name) (c.specs ++ globals) [] args
      match rest with
      | extra :: _ => throw (.unknown extra)
      | [] =>
        let command ← command name after
        let either (option : String) : Option String :=
          (after.lookup option).or (before.lookup option)
        return { config := either "config", ledger := either "db", command }

end AuditChain.CommandLine
