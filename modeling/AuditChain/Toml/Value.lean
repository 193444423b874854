/-!
# Settings documents

The values of a settings document in TOML, and the rules by which its lines build up tables.  A
table may come into being by its own header, by a header of a table within it, or by a dotted key;
how it did decides what may still be added to it.

## Main definitions

* `Toml.Value` — a value.
* `Toml.Node` — a table under construction.
* `Toml.within` — a change at the end of a path.
* `Toml.Members.put`, `Toml.Members.declare`, `Toml.Members.append` — the three ways in which a
  line adds to a document.
-/

namespace AuditChain.Toml

/-- A value.  What instants and fractions say is of no use to settings, and not kept. -/
inductive Value where
  /-- A text. -/
  | text (s : String)
  /-- An integer. -/
  | integer (n : Int)
  /-- A number that is no integer. -/
  | fraction
  /-- A truth value. -/
  | boolean (b : Bool)
  /-- A date, a time, or both. -/
  | instant
  /-- A list of values. -/
  | list (items : List Value)
  /-- Values under names. -/
  | table (members : List (String × Value))
  deriving Inhabited

/-- How a table came into being. -/
inductive Kind where
  /-- As part of the path in a header. -/
  | implied
  /-- As part of a dotted key. -/
  | dotted
  /-- By its own header, or between braces. -/
  | declared
  deriving DecidableEq, Repr

/-- What a name stands for while a document is read. -/
inductive Node where
  /-- A value, complete in itself. -/
  | value (v : Value)
  /-- A table to which more may be added. -/
  | table (kind : Kind) (members : List (String × Node))
  /-- A list of tables, each with a header of its own, the last first. -/
  | tables (items : List (List (String × Node)))

/-- The members of a table under construction. -/
abbrev Members := List (String × Node)

mutual

/-- The value of a node. -/
def Node.toValue : Node → Value
  | .value v => v
  | .table _ members => .table (membersToValue members)
  | .tables items => .list (tablesToValue items).reverse

/-- The values of the members of a table. -/
def membersToValue : List (String × Node) → List (String × Value)
  | [] => []
  | (name, n) :: members => (name, n.toValue) :: membersToValue members

/-- The values of a list of tables. -/
def tablesToValue : List (List (String × Node)) → List Value
  | [] => []
  | members :: items => .table (membersToValue members) :: tablesToValue items

end

namespace Members

/-- Puts a node under a name, in place of the one there. -/
def replace (members : Members) (name : String) (n : Node) : Members :=
  if (members.lookup name).isSome then members.map fun m => if m.1 == name then (name, n) else m
  else members ++ [(name, n)]

/-- Changes the table at the end of a path by `f`.  Tables on the way that are not there come into
being as `kind`; a dotted key cannot lead through a table that was declared, and nothing can lead
through a value.  A list of tables leads to the last one. -/
def within (kind : Kind) (f : Kind → Members → Option Members) :
    (path : List String) → Kind → Members → Option Members
  | [], here, members => f here members
  | name :: path, _, members =>
    match members.lookup name with
    | none => (within kind f path kind []).map fun ms => members.replace name (.table kind ms)
    | some (.value _) => none
    | some (.table there ms) =>
      if kind = .dotted ∧ there = .declared then none
      else (within kind f path there ms).map fun ms => members.replace name (.table there ms)
    | some (.tables []) => none
    | some (.tables (last :: items)) =>
      (within kind f path .declared last).map fun ms =>
        members.replace name (.tables (ms :: items))

/-- Puts a value under a dotted key of a table.  The key's last part must be new, and the table that
its other parts lead to must have been made by dotted keys. -/
def put (path : List String) (name : String) (v : Value) : Kind → Members → Option Members :=
  within .dotted (fun here members =>
    if (here == .dotted) == path.isEmpty then none
    else if (members.lookup name).isSome then none
    else some (members ++ [(name, .value v)])) path

/-- Declares a table by its header.  It must be new, or only implied so far. -/
def declare (path : List String) (name : String) : Members → Option Members :=
  within .implied (fun _ members =>
    match members.lookup name with
    | none => some (members ++ [(name, .table .declared [])])
    | some (.table .implied ms) => some (members.replace name (.table .declared ms))
    | some _ => none) path .declared

/-- Adds a table to a list of tables by its header. -/
def append (path : List String) (name : String) : Members → Option Members :=
  within .implied (fun _ members =>
    match members.lookup name with
    | none => some (members ++ [(name, .tables [[]])])
    | some (.tables items) => some (members.replace name (.tables ([] :: items)))
    | some _ => none) path .declared

/-- Puts a value under a dotted key of the table that a header has named. -/
def putAt (header : List String) (path : List String) (name : String) (v : Value) :
    Members → Option Members :=
  within .implied (put path name v) header .declared

end Members

end AuditChain.Toml
