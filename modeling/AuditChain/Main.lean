import AuditChain.CommandLine.Help
import AuditChain.Store.TableText
import Std.Time.DateTime.Timestamp

/-!
# The program

Reads the files that a command names, carries the command out on them, writes back what it changed,
and prints what there is to print.
-/

namespace AuditChain.Console

/-- What stands at a path, as far as it can be read. -/
def probe (path : String) : IO (Option File) := do
  try
    return some (File.ofOctets (← IO.FS.readBinFile path).toList)
  catch
    | .inappropriateType _ 21 _ => return some .directory
    | _ => return none

/-- A working directory with the files that paths lead through. -/
def gather (w : Workspace) (paths : List String) : IO Workspace :=
  (paths.flatMap w.leading).foldlM (fun w l => do
    if (w.at? l).isSome then return w
    match ← probe (Workspace.pathOf l) with
    | some f => return w.put l f
    | none => return w) w

/-- Writes what a command changed. -/
def save (changes : List (String × Workspace.Change)) : IO Unit :=
  changes.forM fun (path, change) =>
    match change with
    | .makeDirectory => IO.FS.createDirAll path
    | .write bytes => IO.FS.writeBinFile path ⟨bytes.toArray⟩
    | .remove => IO.FS.removeFile path

/-- The time. -/
def now : IO Timestamp := do
  let t ← Std.Time.Timestamp.now
  let nanos := t.toNanosecondsSinceUnixEpoch.val.toNat
  let start : Timestamp := ⟨⟨1970, 1, 1, by decide⟩, ⟨0, nanos % 1000000000, by
    exact ⟨by decide, Nat.lt_trans (Nat.mod_lt _ (by decide)) (by decide)⟩⟩⟩
  return start.addSeconds (nanos / 1000000000)

/-- Prints a transcript; answers its status. -/
def print (t : CommandLine.Transcript) : IO UInt32 := do
  IO.print t.text
  t.errors.forM fun line => IO.eprintln line
  return t.status

/-- The paths that the ledger of some settings may lead through: that of its name taken as a path, the
one that the name stands for with those of the files beside it, and that of a file it is made like. -/
def ledgerPaths (w : Workspace) (i : CommandLine.Invocation) : List String :=
  match CommandLine.settings w i with
  | .error _ => []
  | .ok c => c.store.path.toList.flatMap fun name =>
    match LedgerName.read name with
    | .error _ => [name]
    | .ok ledger =>
      let path := ledger.path.toList
      name :: path ++ ledger.access.pattern.toList ++
        path.flatMap fun p => Beside.endings.map fun ending => p ++ ending

/-- The working directory. -/
def home : IO Workspace := do
  return { home := Path.parts (← IO.currentDir).toString }

/-- Carries out an invocation. -/
def carryOut (i : CommandLine.Invocation) : IO UInt32 := do
  let out := match i.command with
    | .export _ _ (some path) => [path]
    | _ => []
  let before ← gather (← home) (i.config.toList ++ out)
  let before ← gather before (ledgerPaths before i)
  let octets ← IO.getRandomBytes 16
  let around : CommandLine.Surroundings := ⟨← now, DedupKey.ofRandom octets.toList⟩
  let (transcript, after) := CommandLine.execute around before i
  save (before.changes after)
  print transcript

end AuditChain.Console

/-- The program. -/
def main (args : List String) : IO UInt32 :=
  match AuditChain.CommandLine.parse args with
  | .error usage => AuditChain.Console.print usage.transcript
  | .ok i => AuditChain.Console.carryOut i
