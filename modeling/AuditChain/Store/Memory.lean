import AuditChain.Store.Basic
import AuditChain.Store.Ordered

/-!
# The store in memory

Entries in ascending order of their sequences, and an index from keys to sequences.  Inserts
honour both uniqueness constraints.  Loading a list of entries does not: a later entry replaces
an earlier one at the same sequence, and the index leads to the entry that came last under a key.

## Main definitions

* `MemoryStore` — entries with their index.
* `MemoryStore.insert`, `MemoryStore.ofEntries` — the two ways in.
-/

namespace AuditChain

/-- Entries in memory, with an index from keys to sequences. -/
structure MemoryStore where
  /-- The entries, in ascending order. -/
  entries : List Entry := []
  /-- Where the entry under a key is; the first pair of a key counts. -/
  index : List (DedupKey × UInt64) := []
  /-- The entries ascend. -/
  ascending : Ascending Entry.sequence entries := by exact .nil

namespace MemoryStore

/-- The store without entries. -/
def empty : MemoryStore := {}

/-- The entry at a sequence. -/
def get? (m : MemoryStore) (sequence : UInt64) : Option Entry :=
  m.entries.find? fun e => e.sequence == sequence

/-- The entry that the index has under a key. -/
def find? (m : MemoryStore) (key : DedupKey) : Option Entry :=
  (m.index.lookup key).bind m.get?

/-- The end of the chain. -/
def tail (m : MemoryStore) : Option ChainTail :=
  m.entries.getLast?.map Entry.tail

/-- The entries with sequences from `first` to `last`, at most `limit` of them. -/
def range (m : MemoryStore) (first last limit : UInt64) : List Entry :=
  (m.entries.filter fun e => first ≤ e.sequence && e.sequence ≤ last).take limit.toNat

/-- The entries after the newest `offset`, at most `limit` of them, the newest first. -/
def latest (m : MemoryStore) (offset limit : UInt64) : Slice :=
  ⟨(m.entries.reverse.drop offset.toNat).take limit.toNat, m.entries.length⟩

/-- The store with an entry put in under its key, whatever was there before. -/
def put (m : MemoryStore) (e : Entry) : MemoryStore where
  entries := place Entry.sequence e m.entries
  index := (e.event.dedupKey, e.sequence) :: m.index.filter fun p => p.1 != e.event.dedupKey
  ascending := m.ascending.place

/-- The store without the index entry of a key, if that leads to the given sequence. -/
def unindex (m : MemoryStore) (key : DedupKey) (sequence : UInt64) : MemoryStore :=
  if m.index.lookup key = some sequence then
    { m with index := m.index.filter fun p => p.1 != key }
  else m

/-- Adds an entry if neither its sequence nor its key is taken; the sequence is looked at
first. -/
def insert (m : MemoryStore) (e : Entry) : Except StoreError MemoryStore :=
  if (m.get? e.sequence).isSome then .error (.uniqueViolation .sequence)
  else if (m.index.lookup e.event.dedupKey).isSome then .error (.uniqueViolation .dedupKey)
  else .ok (m.put e)

/-- Loads one entry: it replaces the entry at its sequence, which loses its index entry if it
still has it, and it takes its key. -/
def load (m : MemoryStore) (e : Entry) : MemoryStore :=
  match m.get? e.sequence with
  | some replaced => (m.unindex replaced.event.dedupKey e.sequence).put e
  | none => m.put e

/-- The store that results from loading entries one after another. -/
def ofEntries (entries : List Entry) : MemoryStore :=
  entries.foldl load empty

end MemoryStore

instance : Store MemoryStore where
  find m key := .ok (m.find? key)
  tail m := .ok m.tail
  insert := MemoryStore.insert
  range m first last limit := .ok (m.range first last limit)
  latest m offset limit := .ok (m.latest offset limit)
  count m := .ok m.entries.length

end AuditChain
