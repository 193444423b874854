/-!
# Paths

A path is a text with names between slashes.  One that begins with a slash starts at the root, any
other in the working directory; there a leading dot counts as a part of its own, while a dot behind
another name says nothing.

## Main definitions

* `Path.parts` — the names of a path.
* `Path.parent?` — the path to the directory that the last name is in.
* `Path.ancestors` — a path and the paths to the directories above, the nearest first.
-/

namespace AuditChain.Path

/-- The longest path, in octets. -/
def maxOctets : Nat := 4095

/-- The longest name, in octets. -/
def maxName : Nat := 255

/-- The names of a path between its slashes. -/
def parts (path : String) : List String :=
  (path.splitOn "/").filter fun name => name != ""

/-- A path that starts at the root. -/
def isAbsolute (path : String) : Bool :=
  path.startsWith "/"

/-- A path that ends in a slash. -/
def endsInSlash (path : String) : Bool :=
  path.endsWith "/"

/-- A path holds the octet zero, which no name can. -/
def holdsZero (path : String) : Bool :=
  path.toList.contains '\x00'

/-- What a path starts with before its names, which is the root, a dot or nothing, and the
rest. -/
def splitStart (path : String) : String × String :=
  match path.toList with
  | '/' :: rest => ("/", String.ofList rest)
  | ['.'] => (".", "")
  | '.' :: '/' :: rest => (".", String.ofList ('/' :: rest))
  | _ => ("", path)

/-- A piece between slashes that says nothing: an empty one or a dot. -/
def isIdle (piece : String) : Bool :=
  piece == "" || piece == "."

/-- The path of a start and the pieces behind it, the last first. -/
def ofPieces (start : String) (pieces : List String) : String :=
  start ++ "/".intercalate pieces.reverse

/-- The path to the directory that the last name of a path is in, without idle pieces at its end.
It is empty for a single name; the root and the empty path have none. -/
def parent? (path : String) : Option String :=
  let (start, rest) := splitStart path
  match (rest.splitOn "/").reverse.dropWhile isIdle with
  | _ :: above => some (ofPieces start (above.dropWhile isIdle))
  | [] => if start = "." then some "" else none

/-- The paths that lead to the pieces of a path, the last first.  A start that is a dot comes in the
end. -/
def ancestorsFrom (start : String) : (pieces : List String) → List String
  | [] => if start = "." then ["."] else []
  | piece :: above =>
    if isIdle piece then ancestorsFrom start above
    else ofPieces start (piece :: above) :: ancestorsFrom start above

/-- A path and the paths to the directories above it, the nearest first, but not the root. -/
def ancestors (path : String) : List String :=
  let (start, rest) := splitStart path
  ancestorsFrom start (rest.splitOn "/").reverse

end AuditChain.Path
