import AuditChain.Store.Connection

/-!
# Stores with scripted faults

A wrapper that records every request to a store and plays faults from a script before the store
answers: another writer gets in first, the caller cancels, an insert is committed although it is
reported as failed, or the request simply fails.

## Main definitions

* `Operation` — the operations that have faults.
* `Fault` — what happens at one request.
* `Scripted` — the wrapper, its script and its record.
* `Scripted.respond` — the answer to a request.
-/

namespace AuditChain

/-- The operations of a store. -/
inductive Operation where
  /-- Lookup by key. -/
  | find
  /-- The end of the chain. -/
  | tail
  /-- Insertion. -/
  | insert
  /-- A range read. -/
  | range
  /-- A read from the new end. -/
  | latest
  /-- The number of entries. -/
  | count
  deriving DecidableEq, Repr

/-- The name of an operation. -/
def Operation.name : Operation → String
  | .find => "find"
  | .tail => "tail"
  | .insert => "insert"
  | .range => "range"
  | .latest => "latest"
  | .count => "count"

/-- The operation that a request calls for, if it is one on the store. -/
def Request.operation? : Request → Option Operation
  | .find _ => some .find
  | .tail => some .tail
  | .insert _ => some .insert
  | .range _ _ _ => some .range
  | .latest _ _ => some .latest
  | .count => some .count
  | .cancelled => none
  | .pause _ => none
  | .note _ => none

/-- The reply to a request that fails with a store error; a question about cancellation and a
note do not fail. -/
def Request.failure (e : StoreError) : (r : Request) → r.Reply
  | .find _ => .error e
  | .tail => .error e
  | .insert _ => .error e
  | .range _ _ _ => .error e
  | .latest _ _ => .error e
  | .count => .error e
  | .cancelled => false
  | .pause _ => false
  | .note _ => ()

/-- How a request is written in the record. -/
def Request.label : Request → String
  | .find _ => "find"
  | .tail => "tail"
  | .insert e => s!"insert {e.sequence}"
  | .range first last limit => s!"range {first} {last} {limit}"
  | .latest offset limit => s!"latest {offset} {limit}"
  | .count => "count"
  | .cancelled => "cancelled"
  | .pause _ => "pause"
  | .note _ => "note"

/-- Another writer who gets in before an insert, with a copy of the event. -/
inductive Rival where
  /-- Under a key made up for it. -/
  | numbered
  /-- Under this key. -/
  | named (key : DedupKey)
  deriving DecidableEq, Repr

/-- What happens at one request before the store is asked. -/
structure Fault where
  /-- How many requests in a row it happens at. -/
  times : Nat := 1
  /-- The caller cancels. -/
  cancel : Bool := false
  /-- At an insert, another writer gets in first. -/
  rival : Option Rival := none
  /-- At an insert, the entry is written. -/
  commit : Bool := false
  /-- The request fails. -/
  error : Option StoreError := none
  deriving DecidableEq, Repr

/-- A store with a script of faults and a record of requests. -/
structure Scripted (σ : Type) where
  /-- What answers in the end. -/
  inner : σ
  /-- The faults to come, by operation. -/
  script : Operation → List Fault := fun _ => []
  /-- The requests so far, the last first. -/
  calls : List String := []
  /-- How many made-up keys rivals have used. -/
  rivals : Nat := 0
  /-- The caller has cancelled. -/
  cancelled : Bool := false

namespace Scripted

variable {σ : Type} [Responder σ]

/-- Adds faults after those of the same operation. -/
def addFaults (s : Scripted σ) (op : Operation) (faults : List Fault) : Scripted σ :=
  { s with script := fun o => if o = op then s.script o ++ faults else s.script o }

/-- Adds the faults of a whole script. -/
def addScript (s : Scripted σ) (script : List (Operation × List Fault)) : Scripted σ :=
  script.foldl (fun s (op, faults) => s.addFaults op faults) s

/-- Takes the next fault of an operation. -/
def takeFault (s : Scripted σ) (op : Operation) : Option Fault × Scripted σ :=
  match s.script op with
  | [] => (none, s)
  | f :: rest =>
    let rest := if f.times ≤ 1 then rest else { f with times := f.times - 1 } :: rest
    (some f, { s with script := fun o => if o = op then rest else s.script o })

/-- Puts a request to the store itself. -/
def forward (s : Scripted σ) (r : Request) : Except Crash r.Reply × Scripted σ :=
  let (reply, inner) := Responder.respond r s.inner
  (reply, { s with inner })

/-- Writes an entry behind the caller's back. -/
def commit (s : Scripted σ) (e : Entry) : Except Crash (Except StoreError Unit) × Scripted σ :=
  s.forward (.insert e)

/-- Lets a rival insert a copy of an event at the real end of the chain. -/
def letIn (s : Scripted σ) (rival : Rival) (event : Event) :
    Except Crash (Except StoreError Unit) × Scripted σ :=
  let (key, s) : DedupKey × Scripted σ := match rival with
    | .named key => (key, s)
    | .numbered => (⟨s!"rival-{s.rivals}"⟩, { s with rivals := s.rivals + 1 })
  match s.forward .tail with
  | (.error why, s) => (.error why, s)
  | (.ok (.error e), s) => (.ok (.error e), s)
  | (.ok (.ok tail), s) =>
    match ChainTail.nextLink? tail with
    | none => (.error .sequenceOverflow, s)
    | some (sequence, previousHash) =>
      s.commit (Entry.sealed sequence { event with dedupKey := key } previousHash)

/-- The entry that a request is to insert. -/
def entryOf? : Request → Option Entry
  | .insert e => some e
  | _ => none

/-- Plays the part of a fault that writes: the rival first, then the entry itself. -/
def interfere (s : Scripted σ) (f : Fault) (r : Request) :
    Except Crash (Except StoreError Unit) × Scripted σ :=
  match entryOf? r with
  | none => (.ok (.ok ()), s)
  | some e =>
    let (reply, s) : Except Crash (Except StoreError Unit) × Scripted σ := match f.rival with
      | none => (.ok (.ok ()), s)
      | some rival => s.letIn rival e.event
    match reply with
    | .error why => (.error why, s)
    | .ok (.error err) => (.ok (.error err), s)
    | .ok (.ok ()) => if f.commit then s.commit e else (.ok (.ok ()), s)

/-- Records a request, plays the next fault of its operation and, unless that ends the matter,
puts it to the store. -/
def respond (r : Request) (s : Scripted σ) : Except Crash r.Reply × Scripted σ :=
  match r, r.operation? with
  | .cancelled, _ => (.ok s.cancelled, s)
  | .pause _, _ => (.ok s.cancelled, s)
  | r, none => s.forward r
  | r, some op =>
    let s := { s with calls := r.label :: s.calls }
    match s.takeFault op with
    | (none, s) => s.forward r
    | (some f, s) =>
      let s := { s with cancelled := s.cancelled || f.cancel }
      match s.interfere f r with
      | (.error why, s) => (.error why, s)
      | (.ok (.error e), s) => (.ok (r.failure e), s)
      | (.ok (.ok ()), s) =>
        match f.error with
        | some e => (.ok (r.failure e), s)
        | none => s.forward r

instance : Responder (Scripted σ) where
  respond := respond

/-- The same responder for a caller who never cancels. -/
def respondUncancelled (r : Request) (s : Scripted σ) : Except Crash r.Reply × Scripted σ :=
  match r with
  | .cancelled => (.ok false, s)
  | .pause _ => (.ok false, s)
  | r => s.respond r

end Scripted

end AuditChain
