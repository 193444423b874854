import AuditChain.Store.Basic
import AuditChain.Store.Numeral
import AuditChain.Store.Ordered
import AuditChain.Text.Search

/-!
# The store in a table

A relational table with one row per entry.  The sequence is the integer primary key, a signed
word of 64 bits; every other column holds text, or nothing where that is allowed, as long as rows
come from inserts.  Whoever edits rows behind the store's back may leave other cells: octets that
are no text, or no entry's text at all.  Reading such a row fails, and the failure says where.

Reading has two stages.  All cells of all rows of a result are taken as text first, in the order
of the columns; then each row in turn is read as an entry.

## Main definitions

* `Column`, `Cell`, `Row` — the shape of the table.
* `Row.ofEntry`, `Row.texts`, `RowText.toEntry` — an entry as a row, and a row as an entry.
* `Table` — the rows, and what keeps writers out; `Table.put` and `Table.erase` keep their order.
* `Table.insert`, `Table.set`, `Table.delete` — an insert, and edits behind the store's back.
-/

namespace AuditChain

/-! ### Columns and cells -/

/-- The columns beside the sequence. -/
inductive Column where
  /-- The key; no two rows share one. -/
  | dedupKey
  /-- The kind of entity. -/
  | entityName
  /-- The name of the action. -/
  | action
  /-- Which entity. -/
  | entityId
  /-- The values before. -/
  | oldValues
  /-- The values after. -/
  | newValues
  /-- Who did it. -/
  | userId
  /-- How to reach them. -/
  | userEmail
  /-- The canonical text of the instant. -/
  | occurredAt
  /-- What ties the event to a request. -/
  | correlationId
  /-- Where the request came from. -/
  | remoteIp
  /-- What sent the request. -/
  | userAgent
  /-- The hash of the entry before. -/
  | previousHash
  /-- The hash of the entry. -/
  | hash
  deriving DecidableEq, Repr

namespace Column

/-- The columns in the order of the table. -/
def all : List Column :=
  [.dedupKey, .entityName, .action, .entityId, .oldValues, .newValues, .userId, .userEmail,
    .occurredAt, .correlationId, .remoteIp, .userAgent, .previousHash, .hash]

/-- The name of a column. -/
def name : Column → String
  | .dedupKey => "dedup_key"
  | .entityName => "entity_name"
  | .action => "action"
  | .entityId => "entity_id"
  | .oldValues => "old_values"
  | .newValues => "new_values"
  | .userId => "user_id"
  | .userEmail => "user_email"
  | .occurredAt => "occurred_at"
  | .correlationId => "correlation_id"
  | .remoteIp => "remote_ip"
  | .userAgent => "user_agent"
  | .previousHash => "previous_hash"
  | .hash => "hash"

/-- The place of a column in a result; the sequence has place zero. -/
def index : Column → Nat
  | .dedupKey => 1
  | .entityName => 2
  | .action => 3
  | .entityId => 4
  | .oldValues => 5
  | .newValues => 6
  | .userId => 7
  | .userEmail => 8
  | .occurredAt => 9
  | .correlationId => 10
  | .remoteIp => 11
  | .userAgent => 12
  | .previousHash => 13
  | .hash => 14

/-- A column that may hold nothing. -/
def isOptional : Column → Bool
  | .oldValues | .newValues | .userId | .userEmail | .correlationId | .remoteIp | .userAgent =>
    true
  | _ => false

/-- The column of a name in any case. -/
def ofName? (s : String) : Option Column :=
  all.find? fun c => c.name == Text.lower s

/-- A name of the sequence, in any case: its own, or one of those that every primary key has. -/
def namesSequence (s : String) : Bool :=
  ["sequence", "rowid", "oid", "_rowid_"].contains (Text.lower s)

end Column

/-- What a cell of a text column can hold. -/
inductive Cell where
  /-- Nothing. -/
  | null
  /-- A text. -/
  | text (s : String)
  /-- Octets stored as text that are no text. -/
  | badText (bytes : List UInt8)
  /-- Octets stored as such. -/
  | blob (bytes : List UInt8)
  deriving DecidableEq, Repr

namespace Cell

/-- The cell of an optional text. -/
def ofOption : Option String → Cell
  | none => .null
  | some s => .text s

/-- Octets stored as text: a text if they are one. -/
def ofTextOctets (bytes : List UInt8) : Cell :=
  match Text.ofUtf8 bytes with
  | .ok s => .text s
  | .error _ => .badText bytes

end Cell

/-- Why a cell cannot be taken as text, or not where a text is needed. -/
inductive CellFault where
  /-- The cell holds no text. -/
  | wrongType (type : String) (index : Nat) (column : String)
  /-- The octets of the cell are no text. -/
  | notUtf8 (index : Nat) (fault : Text.Utf8Fault)
  deriving DecidableEq, Repr

/-- The wording of a cell's fault. -/
def CellFault.message : CellFault → String
  | .wrongType type index column =>
    s!"Invalid column type {type} at index: {index}, name: {column}"
  | .notUtf8 index fault => s!"Conversion error from type Text at index: {index}, {fault.message}"

/-- A cell taken as text, if it holds anything; `index` is its place in the result. -/
def Cell.textAt (index : Nat) (column : String) : Cell → Except CellFault (Option String)
  | .null => .ok none
  | .text s => .ok (some s)
  | .badText bytes =>
    match Text.ofUtf8 bytes with
    | .ok s => .ok (some s)
    | .error fault => .error (.notUtf8 index fault)
  | .blob _ => .error (.wrongType "Blob" index column)

/-- A cell taken as text that must be there. -/
def Cell.requiredAt (index : Nat) (column : String) (c : Cell) : Except CellFault String :=
  match c.textAt index column with
  | .ok (some s) => .ok s
  | .ok none => .error (.wrongType "Null" index column)
  | .error e => .error e

/-! ### Rows -/

/-- A row of the table. -/
structure Row where
  /-- The primary key. -/
  sequence : Int
  /-- The other cells. -/
  cells : Column → Cell

namespace Row

/-- The row with one cell replaced. -/
def setCell (r : Row) (c : Column) (v : Cell) : Row :=
  { r with cells := fun d => if d = c then v else r.cells d }

/-- The row that is written for an entry. -/
def ofEntry (e : Entry) : Row where
  sequence := e.sequence.toNat
  cells := fun
    | .dedupKey => .text e.event.dedupKey.text
    | .entityName => .text e.event.entityName
    | .action => .text e.event.action.name
    | .entityId => .text e.event.entityId
    | .oldValues => .ofOption e.event.oldValues
    | .newValues => .ofOption e.event.newValues
    | .userId => .ofOption e.event.userId
    | .userEmail => .ofOption e.event.userEmail
    | .occurredAt => .text e.event.occurredAt.canonical
    | .correlationId => .ofOption e.event.correlationId
    | .remoteIp => .ofOption e.event.remoteIp
    | .userAgent => .ofOption e.event.userAgent
    | .previousHash => .text e.previousHash
    | .hash => .text e.hash

end Row

/-- A row whose cells were taken as text. -/
structure RowText where
  /-- The primary key. -/
  sequence : Int
  /-- The key. -/
  dedupKey : String
  /-- The kind of entity. -/
  entityName : String
  /-- The name of the action. -/
  action : String
  /-- Which entity. -/
  entityId : String
  /-- The values before. -/
  oldValues : Option String
  /-- The values after. -/
  newValues : Option String
  /-- Who did it. -/
  userId : Option String
  /-- How to reach them. -/
  userEmail : Option String
  /-- The text of the instant. -/
  occurredAt : String
  /-- What ties the event to a request. -/
  correlationId : Option String
  /-- Where the request came from. -/
  remoteIp : Option String
  /-- What sent the request. -/
  userAgent : Option String
  /-- The hash of the entry before. -/
  previousHash : String
  /-- The hash of the entry. -/
  hash : String
  deriving DecidableEq, Repr

/-- The cells of a row as text, in the order of the columns up to the first fault. -/
def Row.texts (r : Row) : Except CellFault RowText := do
  let required (c : Column) := (r.cells c).requiredAt c.index c.name
  let optional (c : Column) := (r.cells c).textAt c.index c.name
  let dedupKey ← required .dedupKey
  let entityName ← required .entityName
  let action ← required .action
  let entityId ← required .entityId
  let oldValues ← optional .oldValues
  let newValues ← optional .newValues
  let userId ← optional .userId
  let userEmail ← optional .userEmail
  let occurredAt ← required .occurredAt
  let correlationId ← optional .correlationId
  let remoteIp ← optional .remoteIp
  let userAgent ← optional .userAgent
  let previousHash ← required .previousHash
  let hash ← required .hash
  return ⟨r.sequence, dedupKey, entityName, action, entityId, oldValues, newValues, userId,
    userEmail, occurredAt, correlationId, remoteIp, userAgent, previousHash, hash⟩

/-- Why a row of texts is no entry. -/
inductive RowFault where
  /-- The sequence is below zero. -/
  | negative (sequence : Int)
  /-- There is no such action. -/
  | unknownAction (sequence : UInt64) (name : String)
  /-- The text denotes no instant. -/
  | badInstant (sequence : UInt64) (text : String) (fault : TimestampFault)
  /-- The text denotes an instant whose canonical text is another. -/
  | nonCanonical (sequence : UInt64) (text : String)
  deriving DecidableEq, Repr

/-- A row's fault as the store reports it. -/
def RowFault.toStoreError : RowFault → StoreError
  | .negative s => .corrupt none s!"negative sequence {s}"
  | .unknownAction s name => .corrupt (some s) s!"entry {s}: unknown audit action '{name}'"
  | .badInstant s text fault =>
    .corrupt (some s) s!"entry {s}: bad occurred_at '{text}': {fault.message}"
  | .nonCanonical s text => .corrupt (some s) s!"entry {s}: non-canonical occurred_at '{text}'"

/-- The sequence of a primary key that is not below zero. -/
def sequenceOfKey? (key : Int) : Option UInt64 :=
  if 0 ≤ key then some (UInt64.ofNat key.toNat) else none

/-- A row of texts as an entry: sequence, action and instant are looked at in this order. -/
def RowText.toEntry (r : RowText) : Except RowFault Entry := do
  let some sequence := sequenceOfKey? r.sequence | throw (.negative r.sequence)
  let some action := Action.ofName? r.action | throw (.unknownAction sequence r.action)
  let occurredAt ← match Timestamp.readStrict r.occurredAt with
    | .ok t => pure t
    | .error fault => throw (.badInstant sequence r.occurredAt fault)
  unless occurredAt.canonical = r.occurredAt do throw (.nonCanonical sequence r.occurredAt)
  return {
    sequence
    event := {
      dedupKey := ⟨r.dedupKey⟩
      entityName := r.entityName
      action
      entityId := r.entityId
      oldValues := r.oldValues
      newValues := r.newValues
      userId := r.userId
      userEmail := r.userEmail
      occurredAt
      correlationId := r.correlationId
      remoteIp := r.remoteIp
      userAgent := r.userAgent }
    previousHash := r.previousHash
    hash := r.hash }

/-- The rows of a result as entries: the cells of all rows first, then row after row. -/
def readRows (rows : List Row) : Except StoreError (List Entry) :=
  match rows.mapM Row.texts with
  | .error fault => .error (.backend fault.message)
  | .ok texts =>
    match texts.mapM RowText.toEntry with
    | .error fault => .error fault.toStoreError
    | .ok entries => .ok entries

/-! ### The table -/

/-- Rows, and what keeps writers out. -/
structure Table where
  /-- The rows, in ascending order of their primary keys. -/
  rows : List Row := []
  /-- The triggers against updates and deletions are in place. -/
  guarded : Bool := true
  /-- A trigger that refuses every insert with this text. -/
  frozen : Option String := none
  /-- Why the connection cannot write, if it cannot. -/
  refusal : Option StoreError := none
  /-- The primary keys ascend. -/
  ascending : Ascending Row.sequence rows := by exact .nil

namespace Table

/-- The table without rows. -/
def empty : Table := {}

/-- A constraint failure as the store reports it, told by its text: a text that names the key
column is about keys, else one that names the sequence column is about sequences. -/
def classify (text : String) : StoreError :=
  let names (column : String) : Bool := Text.occursIn column.toList text.toList
  if names "audit_entries.dedup_key" then .uniqueViolation .dedupKey
  else if names "audit_entries.sequence" then .uniqueViolation .sequence
  else .backend text

/-- The table with a row put in, whatever its primary key held before. -/
def put (t : Table) (r : Row) : Table :=
  { t with rows := place Row.sequence r t.rows, ascending := t.ascending.place }

/-- The table without the row that has a primary key. -/
def erase (t : Table) (sequence : Int) : Table :=
  { t with
    rows := t.rows.filter fun r => r.sequence != sequence
    ascending := t.ascending.filter _ }

/-- The row with a primary key. -/
def row? (t : Table) (sequence : Int) : Option Row :=
  t.rows.find? fun r => r.sequence == sequence

/-- The row whose key cell is the given text. -/
def rowOfKey? (t : Table) (key : String) : Option Row :=
  t.rows.find? fun r => r.cells .dedupKey == .text key

/-- The report on a sequence beyond the range of primary keys. -/
def beyondRange (sequence : UInt64) : StoreError :=
  .backend s!"sequence {sequence} exceeds the SQLite integer range"

/-- The report of a connection that must not write. -/
def readOnlyReport : StoreError :=
  .backend "attempt to write a readonly database"

/-- The report on a write lock that another connection holds. -/
def lockedReport : StoreError :=
  .unavailable "database is locked"

/-- A number of rows or a bound, cut down to the range of primary keys. -/
def clamp (n : UInt64) : Int :=
  min n.toNat maxRowid

/-- Adds the row of an entry.  A sequence beyond the primary keys, a connection that cannot write, a
trigger, a taken sequence and a taken key are met in this order. -/
def insert (t : Table) (e : Entry) : Except StoreError Table :=
  if maxRowid < e.sequence.toNat then .error (beyondRange e.sequence)
  else
    match t.refusal, t.frozen with
    | some e, _ => .error e
    | none, some text => .error (classify text)
    | none, none =>
      if (t.row? e.sequence.toNat).isSome then .error (.uniqueViolation .sequence)
      else if (t.rowOfKey? e.event.dedupKey.text).isSome then
        .error (.uniqueViolation .dedupKey)
      else .ok (t.put (Row.ofEntry e))

/-- The entry whose key cell is the given key. -/
def find (t : Table) (key : DedupKey) : Except StoreError (Option Entry) :=
  (readRows (t.rowOfKey? key.text).toList).map List.head?

/-- The end of the chain.  Only the sequence and the hash of the last row are read. -/
def tail (t : Table) : Except StoreError (Option ChainTail) :=
  match t.rows.getLast? with
  | none => .ok none
  | some r =>
    match (r.cells .hash).requiredAt 1 Column.hash.name with
    | .error fault => .error (.backend fault.message)
    | .ok hash =>
      match sequenceOfKey? r.sequence with
      | none => .error (RowFault.negative r.sequence).toStoreError
      | some sequence => .ok (some ⟨sequence, hash⟩)

/-- The rows with primary keys from `first` to `last`, at most `limit` of them. -/
def rowsBetween (t : Table) (first last limit : Int) : List Row :=
  (t.rows.filter fun r => first ≤ r.sequence && r.sequence ≤ last).take limit.toNat

/-- The entries with sequences from `first` to `last`, at most `limit` of them.  The lower bound
must be within the range of primary keys; the upper bound and the limit are cut down to it. -/
def range (t : Table) (first last limit : UInt64) : Except StoreError (List Entry) :=
  if last < first then .ok []
  else if maxRowid < first.toNat then .error (beyondRange first)
  else readRows (t.rowsBetween first.toNat (clamp last) (clamp limit))

/-- The entries after the newest `offset`, at most `limit` of them, the newest first. -/
def latest (t : Table) (offset limit : UInt64) : Except StoreError Slice :=
  (readRows ((t.rows.reverse.drop (clamp offset).toNat).take (clamp limit).toNat)).map
    fun items => ⟨items, t.rows.length⟩

/-- The number of rows. -/
def count (t : Table) : Nat :=
  t.rows.length

end Table

instance : Store Table where
  find := Table.find
  tail := Table.tail
  insert := Table.insert
  range := Table.range
  latest := Table.latest
  count t := .ok t.count

/-! ### Edits behind the store's back -/

/-- A value written into a cell. -/
inductive RawValue where
  /-- Nothing. -/
  | null
  /-- An integer. -/
  | int (n : Int)
  /-- A text. -/
  | text (s : String)
  /-- Octets as text. -/
  | textOctets (bytes : List UInt8)
  /-- Octets. -/
  | blob (bytes : List UInt8)
  deriving DecidableEq, Repr

/-- Why an edit is refused. -/
inductive EditError where
  /-- A trigger guards the rows. -/
  | appendOnly
  /-- The column must hold something. -/
  | notNull (column : String)
  /-- Another row holds the value. -/
  | notUnique (column : String)
  /-- The primary key must be an integer. -/
  | mismatch
  /-- There is no such column. -/
  | noColumn (name : String)
  deriving DecidableEq, Repr

/-- The wording of a refused edit. -/
def EditError.message : EditError → String
  | .appendOnly => "audit entries are append-only"
  | .notNull column => s!"NOT NULL constraint failed: audit_entries.{column}"
  | .notUnique column => s!"UNIQUE constraint failed: audit_entries.{column}"
  | .mismatch => "datatype mismatch"
  | .noColumn name => s!"no such column: {name}"

namespace RawValue

/-- The cell that a value leaves in a text column: an integer becomes its decimal text. -/
def toCell : RawValue → Cell
  | .null => .null
  | .int n => .text (toString n)
  | .text s => .text s
  | .textOctets bytes => Cell.ofTextOctets bytes
  | .blob bytes => .blob bytes

/-- The primary key that a text can be. -/
def keyOfText? (s : String) : Option Int :=
  (Numeral.read? s.toList).bind Numeral.key?

/-- The primary key that a value can be: an integer, or a text that denotes one. -/
def toKey? : RawValue → Option Int
  | .int n => some n
  | .text s => keyOfText? s
  | .textOctets bytes =>
    match Text.ofUtf8 bytes with
    | .ok s => keyOfText? s
    | .error _ => none
  | .null => none
  | .blob _ => none

end RawValue

namespace Table

/-- Lifts the triggers against updates and deletions. -/
def unguard (t : Table) : Table :=
  { t with guarded := false }

/-- Gives the row at `sequence` another primary key; answers the number of rows changed. -/
def setKey (t : Table) (sequence : Int) (v : RawValue) : Except EditError (Nat × Table) :=
  match t.row? sequence with
  | none => .ok (0, t)
  | some r =>
    match v.toKey? with
    | none => .error .mismatch
    | some key =>
      if t.guarded then .error .appendOnly
      else if key != sequence && (t.row? key).isSome then .error (.notUnique "sequence")
      else .ok (1, (t.erase sequence).put { r with sequence := key })

/-- Overwrites a cell of the row at `sequence`; answers the number of rows changed. -/
def setCell (t : Table) (sequence : Int) (c : Column) (v : RawValue) :
    Except EditError (Nat × Table) :=
  match t.row? sequence with
  | none => .ok (0, t)
  | some r =>
    let cell := v.toCell
    let taken := t.rows.any fun x => x.sequence != sequence && x.cells .dedupKey == cell
    if t.guarded then .error .appendOnly
    else if cell = .null ∧ !c.isOptional then .error (.notNull c.name)
    else if c = .dedupKey ∧ taken then .error (.notUnique c.name)
    else .ok (1, t.put (r.setCell c cell))

/-- Overwrites a column, given by its name, of the row at `sequence`. -/
def set (t : Table) (sequence : Int) (column : String) (v : RawValue) :
    Except EditError (Nat × Table) :=
  if Column.namesSequence column then t.setKey sequence v
  else
    match Column.ofName? column with
    | none => .error (.noColumn column)
    | some c => t.setCell sequence c v

/-- Deletes the row at `sequence`; answers the number of rows deleted. -/
def delete (t : Table) (sequence : Int) : Except EditError (Nat × Table) :=
  match t.row? sequence with
  | none => .ok (0, t)
  | some _ =>
    if t.guarded then .error .appendOnly
    else .ok (1, t.erase sequence)

end Table

end AuditChain
