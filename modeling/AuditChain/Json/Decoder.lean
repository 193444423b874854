import AuditChain.Json.Value
import AuditChain.Text.Literal
import AuditChain.Time.Text

/-!
# Reading values of known types

A decoder reads a value of one type from the front of a text and returns the rest of it.  It fails
at the first fault in the order of the text: the text is no JSON there, or what stands there does
not fit.

A record is read member by member into a *draft*, in which every member may be missing.  A member
whose name is unknown is passed over; one that comes twice is a fault.  A record may also be given
as the list of its members' values.  An alternative is given by its name, if it carries nothing, or
by a record with its name as the only member.

## Main definitions

* `Json.Misfit`, `Json.Fault` — what can be wrong.
* `Json.Decoder` — readers of texts, numbers, instants, lists, records and alternatives.
* `Json.instantOf` — the instant that a value says.
* `Json.Slot`, `Json.Shape`, `Json.readShape` — records.
* `Json.Variant`, `Json.readVariant` — alternatives.
* `Json.decode` — reads a whole text.
-/

namespace AuditChain.Json

/-! ### Faults -/

/-- What stands where something else is expected. -/
inductive Found where
  /-- Nothing. -/
  | null
  /-- A truth value. -/
  | boolean (b : Bool)
  /-- A number. -/
  | number (n : Number)
  /-- A text. -/
  | text (s : String)
  /-- A list. -/
  | list
  /-- A record. -/
  | record
  /-- The bare name of an alternative. -/
  | bareName

/-- The wording of what stands there. -/
def Found.message : Found → String
  | .null => "null"
  | .boolean b => s!"boolean `{b}`"
  | .number (.float x) => s!"floating point `{Decimal.text x}`"
  | .number n => s!"integer `{n.text}`"
  | .text s => s!"string {Text.literal s}"
  | .list => "sequence"
  | .record => "map"
  | .bareName => "unit variant"

/-- Why a value does not fit. -/
inductive Misfit where
  /-- It is of another type. -/
  | wrongType (found : Found) (expected : String)
  /-- It is of the type, but outside its range. -/
  | wrongValue (found : Found) (expected : String)
  /-- A list ends before the record that it stands for is complete. -/
  | wrongLength (length : Nat) (expected : String)
  /-- A member is missing. -/
  | missing (name : String)
  /-- A member comes twice. -/
  | duplicate (name : String)
  /-- There is no such alternative. -/
  | unknownVariant (name : String) (names : List String)
  /-- A text denotes no instant. -/
  | instant (fault : TimestampFault)

/-- A choice between names: one, two, or a list. -/
def choice (names : List String) : String :=
  let quoted := names.map fun n => s!"`{n}`"
  match quoted with
  | [a] => a
  | [a, b] => s!"{a} or {b}"
  | _ => "one of " ++ ", ".intercalate quoted

/-- The wording of a misfit. -/
def Misfit.message : Misfit → String
  | .wrongType found expected => s!"invalid type: {found.message}, expected {expected}"
  | .wrongValue found expected => s!"invalid value: {found.message}, expected {expected}"
  | .wrongLength length expected => s!"invalid length {length}, expected {expected}"
  | .missing name => s!"missing field `{name}`"
  | .duplicate name => s!"duplicate field `{name}`"
  | .unknownVariant name names => s!"unknown variant `{name}`, expected {choice names}"
  | .instant fault => fault.message

/-- Why a text is not read. -/
inductive Fault where
  /-- It is no JSON. -/
  | defect (d : Defect)
  /-- What it says does not fit. -/
  | misfit (m : Misfit)

/-- A reader of values from the front of a text. -/
abbrev Decoder (α : Type) := List Char → Except Fault (α × List Char)

/-- A reader that only meets defects. -/
def lift {α : Type} : Except Defect α → Except Fault α
  | .ok a => .ok a
  | .error d => .error (.defect d)

/-- What stands at the front of a text, as far as it can be told. -/
def found (s : List Char) : Except Defect Found :=
  match s with
  | [] => .error .malformed
  | c :: rest =>
    if c = 'n' then (demand "ull".toList rest).map fun _ => .null
    else if c = 't' then (demand "rue".toList rest).map fun _ => .boolean true
    else if c = 'f' then (demand "alse".toList rest).map fun _ => .boolean false
    else if c = '"' then (readQuoted rest).map fun p => .text p.1
    else if c = '-' ∨ Text.isDigit c then (readNumber s).map fun p => .number p.1
    else if c = '[' then .ok .list
    else if c = '\x7b' then .ok .record
    else .error .malformed

/-- The fault of a text that does not begin with what is expected. -/
def unexpected (expected : String) (s : List Char) : Fault :=
  match found s with
  | .ok f => .misfit (.wrongType f expected)
  | .error d => .defect d

/-! ### Simple values -/

/-- Reads a text. -/
def readText (expected : String) : Decoder String := fun s =>
  match skipSpace s with
  | [] => .error (.defect .unfinished)
  | '"' :: s => lift (readQuoted s)
  | s => .error (unexpected expected s)

/-- Reads a text without further conditions. -/
def text : Decoder String :=
  readText "a string"

/-- What is expected where an instant is to stand. -/
def expectedInstant : String :=
  "an RFC 3339 formatted date and time string"

/-- The instant that a text denotes. -/
def instantOfText (t : String) : Except Misfit Timestamp :=
  (Timestamp.readLenient t).mapError .instant

/-- Reads an instant from its text. -/
def instant : Decoder Timestamp := fun s => do
  let (t, s) ← readText expectedInstant s
  match instantOfText t with
  | .ok t => return (t, s)
  | .error m => throw (.misfit m)

/-- What a value is where something else is expected. -/
def Value.found : Value → Found
  | .null => .null
  | .boolean b => .boolean b
  | .number n => .number n
  | .text s => .text s
  | .list _ => .list
  | .record _ => .record

/-- The instant that a value says. -/
def instantOf : Value → Except Misfit Timestamp
  | .text t => instantOfText t
  | v => .error (.wrongType v.found expectedInstant)

/-- What a number is if a word of 64 bits is expected. -/
def wordOf : Number → Except Misfit UInt64
  | .natural n => .ok n
  | .negative n => .error (.wrongValue (.number (.negative n)) "u64")
  | .float x => .error (.wrongType (.number (.float x)) "u64")

/-- Reads a word of 64 bits. -/
def word : Decoder UInt64 := fun s =>
  match skipSpace s with
  | [] => .error (.defect .unfinished)
  | c :: s =>
    if c = '-' ∨ Text.isDigit c then do
      let (n, rest) ← lift (readNumber (c :: s))
      match wordOf n with
      | .ok n => return (n, rest)
      | .error m => throw (.misfit m)
    else .error (unexpected "u64" (c :: s))

/-- Reads nothing, or a value. -/
def nullable {α : Type} (d : Decoder α) : Decoder (Option α) := fun s =>
  match skipSpace s with
  | 'n' :: s => lift ((demand "ull".toList s).map fun s => (none, s))
  | s => (d s).map fun (a, s) => (some a, s)

/-- Reads nothing at all where an alternative carries nothing. -/
def unit : Decoder Unit := fun s =>
  match skipSpace s with
  | [] => .error (.defect .unfinished)
  | 'n' :: s => lift ((demand "ull".toList s).map fun s => ((), s))
  | s => .error (unexpected "unit" s)

/-! ### Lists -/

/-- Reads the items of a list and its last bracket.  The fuel bounds the number of items. -/
def readItems {α : Type} (d : Decoder α) : (fuel : Nat) → (first : Bool) → Decoder (List α)
  | 0, _, _ => .error (.defect .unfinished)
  | fuel + 1, first, s => do
    match ← lift (nextItem first s) with
    | none =>
      let s ← lift (demandMark ']' s)
      return ([], s)
    | some s =>
      let (x, s) ← d s
      let (xs, s) ← readItems d fuel false s
      return (x :: xs, s)

/-- Reads a list. -/
def list {α : Type} (d : Decoder α) : Decoder (List α) := fun s =>
  match skipSpace s with
  | [] => .error (.defect .unfinished)
  | '[' :: s => readItems d (s.length + 1) true s
  | s => .error (unexpected "a sequence" s)

/-! ### Records -/

/-- A member of a record whose draft is of type `δ`. -/
structure Slot (δ : Type) where
  /-- Its name. -/
  name : String
  /-- The draft has it. -/
  isFilled : δ → Bool
  /-- Reads it into a draft. -/
  fill : δ → Decoder δ

/-- The slot that a decoder fills. -/
def Slot.of {δ α : Type} (name : String) (get : δ → Option α) (set : δ → Option α → δ)
    (d : Decoder α) : Slot δ where
  name := name
  isFilled := fun draft => (get draft).isSome
  fill := fun draft s => (d s).map fun (a, s) => (set draft (some a), s)

/-- How a record of type `α` is read through drafts of type `δ`. -/
structure Shape (δ α : Type) where
  /-- What is expected where the record is to stand. -/
  expected : String
  /-- The draft without members. -/
  empty : δ
  /-- The members, in their order. -/
  slots : List (Slot δ)
  /-- The record of a draft, or the first member that is missing. -/
  finish : δ → Except Misfit α

/-- What is expected where a list is to stand for a record. -/
def Shape.expectedLength {δ α : Type} (shape : Shape δ α) : String :=
  let n := shape.slots.length
  let unit := if n = 1 then "element" else "elements"
  s!"{shape.expected} with {n} {unit}"

/-- The member of a draft, or that it is missing. -/
def require {α : Type} (name : String) : Option α → Except Misfit α
  | some a => .ok a
  | none => .error (.missing name)

/-- The record of a draft. -/
def Shape.complete {δ α : Type} (shape : Shape δ α) (draft : δ) (s : List Char) :
    Except Fault (α × List Char) :=
  match shape.finish draft with
  | .ok a => .ok (a, s)
  | .error m => .error (.misfit m)

/-- Reads the values of all slots from a list; `index` of them have been read. -/
def readInOrder {δ : Type} (expected : String) : (index : Nat) → List (Slot δ) → δ → Decoder δ
  | _, [], draft, s => .ok (draft, s)
  | index, slot :: slots, draft, s => do
    match ← lift (nextItem (index == 0) s) with
    | none => throw (.misfit (.wrongLength index expected))
    | some s =>
      let (draft, s) ← slot.fill draft s
      readInOrder expected (index + 1) slots draft s

/-- Reads one member after its quotation mark. -/
def readMember {δ : Type} (slots : List (Slot δ)) (draft : δ) : Decoder δ := fun s => do
  let (name, s) ← lift (readQuoted s)
  match slots.find? fun slot => slot.name == name with
  | some slot =>
    if slot.isFilled draft then throw (.misfit (.duplicate name))
    let s ← lift (demandMark ':' s)
    slot.fill draft s
  | none =>
    let s ← lift (demandMark ':' s)
    let s ← lift (skipValue s)
    return (draft, s)

/-- Reads members up to the last brace, which stays.  The fuel bounds their number. -/
def readMembers {δ : Type} (slots : List (Slot δ)) :
    (fuel : Nat) → (first : Bool) → δ → Decoder δ
  | 0, _, _, _ => .error (.defect .unfinished)
  | fuel + 1, first, draft, s => do
    match ← lift (nextMember first s) with
    | none => return (draft, s)
    | some rest =>
      let (draft, s) ← readMember slots draft rest
      readMembers slots fuel false draft s

/-- Reads a record. -/
def readShape {δ α : Type} (shape : Shape δ α) : Decoder α := fun s =>
  match skipSpace s with
  | [] => .error (.defect .unfinished)
  | '[' :: s => do
    let (draft, s) ← readInOrder shape.expectedLength 0 shape.slots shape.empty s
    let (a, s) ← shape.complete draft s
    let s ← lift (demandMark ']' s)
    return (a, s)
  | '\x7b' :: s => do
    let (draft, s) ← readMembers shape.slots (s.length + 1) true shape.empty s
    let (a, s) ← shape.complete draft s
    let s ← lift (demandMark '\x7d' s)
    return (a, s)
  | s => .error (unexpected shape.expected s)

/-! ### Alternatives -/

/-- One of several alternatives. -/
structure Variant (α : Type) where
  /-- Its name. -/
  name : String
  /-- What its bare name stands for. -/
  bare : Except Misfit α
  /-- Reads what it carries. -/
  payload : Decoder α

/-- An alternative that carries nothing. -/
def Variant.plain {α : Type} (name : String) (a : α) : Variant α :=
  ⟨name, .ok a, fun s => (unit s).map fun (_, s) => (a, s)⟩

/-- An alternative that carries one value. -/
def Variant.carrying {α : Type} (name : String) (d : Decoder α) : Variant α :=
  ⟨name, .error (.wrongType .bareName "newtype variant"), d⟩

/-- An alternative that carries a record. -/
def Variant.record {δ α : Type} (name : String) (shape : Shape δ α) : Variant α :=
  ⟨name, .error (.wrongType .bareName "struct variant"), readShape shape⟩

/-- Reads the name of an alternative after its quotation mark. -/
def readVariantName {α : Type} (variants : List (Variant α)) : Decoder (Variant α) := fun s => do
  let (name, s) ← lift (readQuoted s)
  match variants.find? fun v => v.name == name with
  | some v => return (v, s)
  | none => throw (.misfit (.unknownVariant name (variants.map Variant.name)))

/-- Reads one of several alternatives. -/
def readVariant {α : Type} (variants : List (Variant α)) : Decoder α := fun s =>
  match skipSpace s with
  | [] => .error (.defect .unfinished)
  | '"' :: s => do
    let (v, s) ← readVariantName variants s
    match v.bare with
    | .ok a => return (a, s)
    | .error m => throw (.misfit m)
  | '\x7b' :: s => do
    match skipSpace s with
    | [] => throw (.defect .unfinished)
    | '"' :: s =>
      let (v, s) ← readVariantName variants s
      let s ← lift (demandMark ':' s)
      let (a, s) ← v.payload s
      let s ← lift (demandMark '\x7d' s)
      return (a, s)
    | _ => throw (.defect .malformed)
  | _ => .error (.defect .malformed)

/-- Reads a whole text, which may only have space around the value. -/
def decode {α : Type} (d : Decoder α) (s : String) : Except Fault α :=
  match d s.toList with
  | .error e => .error e
  | .ok (a, rest) => if (skipSpace rest).isEmpty then .ok a else .error (.defect .malformed)

end AuditChain.Json
