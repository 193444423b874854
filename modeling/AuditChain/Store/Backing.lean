import AuditChain.Store.Memory
import AuditChain.Store.Table

/-!
# A store behind a lock

A store of either kind, and the lock that its calls take.  A call that crashes while it holds the
lock leaves the store *poisoned*: what it has written stays, and every later call fails.  An insert
holds the lock until it is noted in the journal.

## Main definitions

* `Backing` — a store in memory or in a table, or one that cannot be seen.
* `Backing.rangeOutright` — the range reads that are answered without the lock.
* `Latch` — the state of a lock, and the journal.
* `Latch.answer` — a call under the lock.
-/

namespace AuditChain

/-- A store of either kind. -/
inductive Backing where
  /-- A store in memory. -/
  | memory (m : MemoryStore)
  /-- A store in a table. -/
  | table (t : Table)
  /-- A store in a table that cannot be seen. -/
  | hidden (why : StoreError)

namespace Backing

/-- What the lock of a store belongs to. -/
def lockName : Backing → String
  | .memory _ => "audit log"
  | .table _ => "sqlite connection"
  | .hidden _ => "sqlite connection"

/-- The answer to a range read that is given before the lock is taken: an empty range, and in a
table a lower bound beyond the primary keys. -/
def rangeOutright (b : Backing) (first last : UInt64) : Option (Except StoreError (List Entry)) :=
  if last < first then some (.ok [])
  else
    match b with
    | .memory _ => none
    | _ => if maxRowid < first.toNat then some (.error (Table.beyondRange first)) else none

/-- The answer to an insert where the table cannot be seen: a sequence beyond the primary keys is met
first. -/
def insertHidden (why : StoreError) (e : Entry) : StoreError :=
  if maxRowid < e.sequence.toNat then Table.beyondRange e.sequence else why

end Backing

instance : Store Backing where
  find
    | .memory m, key => Store.find m key
    | .table t, key => Store.find t key
    | .hidden why, _ => .error why
  tail
    | .memory m => Store.tail m
    | .table t => Store.tail t
    | .hidden why => .error why
  insert
    | .memory m, e => (Store.insert m e).map .memory
    | .table t, e => (Store.insert t e).map .table
    | .hidden why, e => .error (Backing.insertHidden why e)
  range
    | .memory m, first, last, limit => Store.range m first last limit
    | .table t, first, last, limit => Store.range t first last limit
    | .hidden why, _, _, _ => .error why
  latest
    | .memory m, offset, limit => Store.latest m offset limit
    | .table t, offset, limit => Store.latest t offset limit
    | .hidden why, _, _ => .error why
  count
    | .memory m => Store.count m
    | .table t => Store.count t
    | .hidden why => .error why

/-- The state of a lock, and the journal that is kept beside it. -/
structure Latch where
  /-- A call crashed while it held the lock. -/
  poisoned : Bool := false
  /-- The journal. -/
  journal : Journal := {}
  deriving DecidableEq, Repr

namespace Latch

/-- What calls on a poisoned store fail with. -/
def poison (b : Backing) : StoreError :=
  .backend s!"{b.lockName} lock poisoned: poisoned lock: another task failed inside"

/-- A read under the lock. -/
def read {α : Type} (l : Latch) (b : Backing) (f : Backing → Except StoreError α) :
    Except StoreError α :=
  if l.poisoned then .error (poison b) else f b

/-- An insert under the lock.  If the journal crashes at its note, the entry is written and the lock
is held. -/
def insert (l : Latch) (b : Backing) (e : Entry) :
    Except Crash (Except StoreError Unit) × Latch × Backing :=
  if l.poisoned then (.ok (.error (poison b)), l, b)
  else
    match Store.insert b e with
    | .error err => (.ok (.error err), l, b)
    | .ok b' =>
      match l.journal.write .inserted with
      | (.error why, journal) => (.error why, { poisoned := true, journal }, b')
      | (.ok (), journal) => (.ok (.ok ()), { l with journal }, b')

/-- A call under the lock.  There is nobody here who could cancel. -/
def answer (l : Latch) (b : Backing) : (r : Request) → Except Crash r.Reply × Latch × Backing
  | .find key => (.ok (l.read b fun b => Store.find b key), l, b)
  | .tail => (.ok (l.read b Store.tail), l, b)
  | .insert e => l.insert b e
  | .range first last limit =>
    match b.rangeOutright first last with
    | some reply => (.ok reply, l, b)
    | none => (.ok (l.read b fun b => Store.range b first last limit), l, b)
  | .latest offset limit => (.ok (l.read b fun b => Store.latest b offset limit), l, b)
  | .count => (.ok (l.read b Store.count), l, b)
  | .cancelled => (.ok false, l, b)
  | .pause _ => (.ok false, l, b)
  | .note n =>
    let (written, journal) := l.journal.write n
    (written, { l with journal }, b)

end Latch

end AuditChain
