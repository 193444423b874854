import AuditChain.Text.Case
import AuditChain.Text.Hex
import AuditChain.Time.Text

/-!
# Audit events

What a producer publishes after it changed an entity.  The transport may deliver an event more
than once; its *deduplication key* alone tells that two deliveries are of the same event.

## Main definitions

* `Action` — what happened to the entity.
* `Event` — the event, with its values, its user and its request.
* `Action.parse`, `Action.ofName?`, `Action.pad?` — the names of actions read and written.
-/

namespace AuditChain

/-- The key that all deliveries of one event share.  Keys are compared as texts. -/
structure DedupKey where
  /-- The text of the key. -/
  text : String
  deriving DecidableEq, Repr, Inhabited

/-- The key made of sixteen random octets: their hexadecimal digits in five groups, with the marks
of a random identifier, a `4` at the head of the third group and two fixed bits at the head of the
fourth. -/
def DedupKey.ofRandom (octets : List UInt8) : DedupKey :=
  let marked := octets.zipIdx.map fun (b, i) =>
    if i = 6 then b &&& 0x0F ||| 0x40 else if i = 8 then b &&& 0x3F ||| 0x80 else b
  let group (start count : Nat) : String := Text.hex ((marked.drop start).take count)
  ⟨"-".intercalate [group 0 4, group 4 2, group 6 2, group 8 2, group 10 6]⟩

/-- What happened to the entity. -/
inductive Action where
  /-- It came into being. -/
  | created
  /-- Some of its values changed. -/
  | modified
  /-- It was removed. -/
  | deleted
  deriving DecidableEq, Repr, Inhabited

namespace Action

/-- The name under which an action is hashed and stored. -/
def name : Action → String
  | .created => "Created"
  | .modified => "Modified"
  | .deleted => "Deleted"

/-- All actions, in the order in which they are listed. -/
def all : List Action := [.created, .modified, .deleted]

/-- The action of an exact name. -/
def ofName? (s : String) : Option Action :=
  all.find? fun a => a.name == s

@[simp] theorem ofName?_name (a : Action) : ofName? a.name = some a := by
  cases a <;> rfl

/-- An action is found under its own name only. -/
theorem name_of_ofName? {s : String} {a : Action} (h : ofName? s = some a) : a.name = s := by
  have hname := List.find?_some h
  exact beq_iff_eq.mp hname

/-- No two actions share a name. -/
theorem name_injective {a b : Action} (h : a.name = b.name) : a = b := by
  have hname := ofName?_name a
  rw [h, ofName?_name] at hname
  exact (Option.some.inj hname).symm

/-- The action of a name in any case, or the wording of the refusal. -/
def parse (s : String) : Except String Action :=
  match Text.lower s with
  | "created" => .ok .created
  | "modified" => .ok .modified
  | "deleted" => .ok .deleted
  | other => .error s!"unknown audit action '{other}'"

end Action

/-- Where a text stands within a wider field. -/
inductive Alignment where
  /-- At the left edge. -/
  | left
  /-- At the right edge. -/
  | right
  /-- In the middle; an odd blank goes to the right. -/
  | centre
  deriving DecidableEq, Repr

/-- A text cut after `precision` characters and filled up to `width` characters. -/
def padText (fill : Char) (align : Alignment) (width precision : Nat) (s : String) : String :=
  let cs := s.toList.take precision
  let missing := width - cs.length
  let before := match align with
    | .left => 0
    | .right => missing
    | .centre => missing / 2
  String.ofList
    (List.replicate before fill ++ cs ++ List.replicate (missing - before) fill)

/-- A text filled up to the width of a column; a longer one stays as it is. -/
def column (align : Alignment) (width : Nat) (s : String) : String :=
  padText ' ' align width s.length s

/-- The greatest width and the greatest number of characters that a text is filled up or cut to. -/
def maxField : Nat := 65535

/-- The name of an action, cut and filled up like any text.  There is none for a width or a number of
characters that no field can have. -/
def Action.pad? (fill : Char) (align : Alignment) (width precision : Nat) (a : Action) :
    Option String :=
  if width ≤ maxField ∧ precision ≤ maxField then some (padText fill align width precision a.name)
  else none

/-- One change of one entity, as published. -/
structure Event where
  /-- The key shared by all deliveries of this event. -/
  dedupKey : DedupKey
  /-- The kind of entity. -/
  entityName : String
  /-- What happened to it. -/
  action : Action
  /-- Which entity of its kind. -/
  entityId : String
  /-- The values before the change. -/
  oldValues : Option String := none
  /-- The values after the change. -/
  newValues : Option String := none
  /-- Who did it. -/
  userId : Option String := none
  /-- How to reach them. -/
  userEmail : Option String := none
  /-- When it happened. -/
  occurredAt : Timestamp
  /-- What ties the event to a request. -/
  correlationId : Option String := none
  /-- Where the request came from. -/
  remoteIp : Option String := none
  /-- What sent the request. -/
  userAgent : Option String := none
  deriving DecidableEq, Repr

namespace Event

/-- The event with its values before and after the change. -/
def withValues (e : Event) (old new : Option String) : Event :=
  { e with oldValues := old, newValues := new }

/-- The event with its user. -/
def withUser (e : Event) (id email : String) : Event :=
  { e with userId := some id, userEmail := some email }

/-- The event with its request. -/
def withRequest (e : Event) (correlation ip agent : Option String) : Event :=
  { e with correlationId := correlation, remoteIp := ip, userAgent := agent }

end Event

end AuditChain
