import AuditChain.CommandLine.Execution

/-!
# What the command line says of itself

Help lists the commands and their options in two columns; where the second column would be too
narrow for what has to stand in it, or where help is given in full, what an option is for stands on
a line of its own.

## Main definitions

* `CommandLine.helpText` — the help on a topic.
* `CommandLine.Usage.message` — why arguments are rejected.
* `CommandLine.Usage.transcript` — what comes of arguments that name nothing to carry out.
-/

namespace AuditChain.CommandLine

/-- The name of the program. -/
def programName : String := "demo"

/-- What the program is, in a line. -/
def summary : String := "tamperlog shop reference demo"

/-- What the program does. -/
def description : String :=
  "Runs tamperlog shop scenarios showing genesis and linking, redelivery\n" ++
    "collapse, concurrent appends, and tamper detection, or operates on a\n" ++
    "persistent ledger."

/-- The command that prints help. -/
def helpCommand : CommandSpec :=
  ⟨"help", "Print this message or the help of the given subcommand(s)", []⟩

/-- The width of a line of help. -/
def helpWidth : Nat := 100

/-- An option in upper case, as the name of its value. -/
def valueName (name : String) : String :=
  String.ofList (name.toList.map fun c => if c = '-' then '_' else c.toUpper)

/-- An option with its value. -/
def Spec.form (o : Spec) : String :=
  s!"--{o.name} <{valueName o.name}>"

/-- The default of an option, as help shows it. -/
def Spec.defaultText (o : Spec) : String :=
  match o.default with
  | none => ""
  | some v => s!"[default: {v}]"

/-- A line of the list of options: how the option is written, and what it is for. -/
structure HelpLine where
  /-- The short form, or blanks in its place. -/
  short : String := "    "
  /-- The option with its value. -/
  form : String
  /-- What it is for. -/
  about : String
  deriving DecidableEq, Repr

/-- The line of an option. -/
def Spec.helpLine (o : Spec) : HelpLine where
  form := o.form
  about := " ".intercalate ([o.about, o.defaultText].filter fun s => s != "")

/-- The line of the option that asks for help. -/
def helpOption (topic : Topic) (full : Bool) : HelpLine where
  short := "-h, "
  form := "--help"
  about :=
    match topic, full with
    | .everything, true => "Print help (see a summary with '-h')"
    | .everything, false => "Print help (see more with '--help')"
    | _, _ => "Print help"

/-- The options of a command in the order in which help lists them: those of the command and those
of every command side by side, two at the same place by their names. -/
def interleave : List Spec → List Spec → List Spec
  | [], ys => ys
  | xs, [] => xs
  | x :: xs, y :: ys =>
    if x.name ≤ y.name then x :: y :: interleave xs ys else y :: x :: interleave xs ys

/-- A list of options. -/
def optionLines (full : Bool) (lines : List HelpLine) : List String :=
  let longest := lines.foldl (fun n l => max n l.form.length) 0
  let taken := longest + 12
  let crowded := decide (40 * helpWidth < 100 * taken) &&
    lines.any fun l => decide (helpWidth - taken < l.about.length)
  if full then
    (lines.map fun l => [s!"  {l.short}{l.form}", s!"          {l.about}"]).intersperse [""]
      |>.flatten
  else if crowded then
    lines.flatMap fun l => [s!"  {l.short}{l.form}", s!"          {l.about}"]
  else
    lines.map fun l => s!"  {l.short}{column .left longest l.form}  {l.about}"

/-- The list of commands. -/
def commandLines : List String :=
  let longest := table.foldl (fun n c => max n c.name.length) 0
  (table ++ [helpCommand]).map fun c =>
    s!"  {column .left longest c.name}  {c.about}"

/-- How a command is called. -/
def usageLine (c : CommandSpec) : String :=
  let must := (c.specs.filter fun o => o.needed).map Spec.form
  " ".intercalate ([s!"Usage: {programName} {c.name} [OPTIONS]"] ++ must)

/-- The help on a topic; only the help on everything is longer in full. -/
def helpText (topic : Topic) (full : Bool) : List String :=
  match topic with
  | .everything =>
    [if full then description else summary, "",
      s!"Usage: {programName} [OPTIONS] <COMMAND>", "", "Commands:"] ++ commandLines ++
      ["", "Options:"] ++
      optionLines full (globals.map Spec.helpLine ++ [helpOption topic full])
  | .command name =>
    match commandSpec? name with
    | none => []
    | some c =>
      [c.about, "", usageLine c, "", "Options:"] ++
        optionLines false
          ((interleave globals c.specs).map Spec.helpLine ++ [helpOption topic full])
  | .help =>
    [helpCommand.about, "", s!"Usage: {programName} help [COMMAND]...", "", "Arguments:",
      "  [COMMAND]...  Print help for the subcommand(s)"]

/-- Why arguments are rejected. -/
def Usage.message : Usage → String
  | .help _ _ => "help was asked for"
  | .noCommand => "no command is named"
  | .unknown argument => s!"unexpected argument '{argument}'"
  | .repeated name => s!"'--{name}' is given more than once"
  | .noValue name => s!"'--{name}' has no value"
  | .badValue name value => s!"'{value}' is no value for '--{name}'"
  | .missing name => s!"'--{name}' is missing"

/-- What comes of arguments that name nothing to carry out. -/
def Usage.transcript : Usage → Transcript
  | .help topic full => { output := helpText topic full }
  | u => { status := 2, errors := [s!"error: {u.message}", "", "For more, try '--help'."] }

end AuditChain.CommandLine
