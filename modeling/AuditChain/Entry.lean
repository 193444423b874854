import AuditChain.Event
import AuditChain.Sha256
import AuditChain.Text.Utf8

/-!
# Chain entries

An entry is an event with its place in the chain: its sequence, the hash of the entry before it
and its own hash.  The hash is the SHA-256 of the *canonical encoding* of sequence and event,
followed by the previous hash; so each entry vouches for all entries before it.

In the canonical encoding the sequence takes eight octets, the highest first, and each field
follows with a tag: `0` for an absent field, `1` for a present one, whose length in four octets
and whose text follow.

## Main definitions

* `Entry` — an event with its place in the chain.
* `ChainTail`, `ChainTail.nextLink?` — the end of the chain, and the place after it.
* `Snapshot` — an exported slice of the chain.
* `Event.fields`, `encode` — the canonical encoding.
* `hashEntry`, `Entry.recompute`, `Entry.sealed` — the hash of an entry, and the entry that has it.
-/

namespace AuditChain

/-- The previous hash of the first entry: sixty-four zeros. -/
def genesisHash : String :=
  "0000000000000000000000000000000000000000000000000000000000000000"

/-- An event with its place in the chain. -/
structure Entry where
  /-- The position in the order of commits, from zero. -/
  sequence : UInt64
  /-- The event as delivered. -/
  event : Event
  /-- The hash of the entry before it. -/
  previousHash : String
  /-- The hash of this entry. -/
  hash : String
  deriving DecidableEq, Repr

/-- The first entry of a chain has sequence zero. -/
def Entry.isGenesis (e : Entry) : Bool :=
  e.sequence == 0

/-- The end of a chain: the sequence and the hash of its last entry. -/
structure ChainTail where
  /-- The sequence of the last entry. -/
  sequence : UInt64
  /-- The hash of the last entry. -/
  hash : String
  deriving DecidableEq, Repr

/-- The end of a chain whose last entry is `e`. -/
def Entry.tail (e : Entry) : ChainTail :=
  ⟨e.sequence, e.hash⟩

/-- The greatest sequence there is. -/
def maxSequence : UInt64 := 18446744073709551615

/-- The sequence and the previous hash of the entry that comes next; there is none after the
greatest sequence. -/
def ChainTail.nextLink? : Option ChainTail → Option (UInt64 × String)
  | none => some (0, genesisHash)
  | some t => if t.sequence = maxSequence then none else some (t.sequence + 1, t.hash)

@[simp] theorem ChainTail.nextLink?_none : nextLink? none = some (0, genesisHash) := rfl

/-- A slice of the chain as exported. -/
structure Snapshot where
  /-- The entries, in ascending order of their sequences. -/
  entries : List Entry
  /-- When the slice was taken. -/
  exportedAt : Timestamp
  /-- The hash of the last entry; empty if there is none. -/
  terminalHash : String
  deriving DecidableEq, Repr

/-- The terminal hash of a slice: the hash of its last entry, or the empty text. -/
def terminalHash (entries : List Entry) : String :=
  (entries.getLast?.map Entry.hash).getD ""

/-! ### The canonical encoding -/

/-- The octets of a number of 64 bits, the highest first. -/
def bigEndian64 (n : UInt64) : List UInt8 :=
  [(n >>> 56).toUInt8, (n >>> 48).toUInt8, (n >>> 40).toUInt8, (n >>> 32).toUInt8,
    (n >>> 24).toUInt8, (n >>> 16).toUInt8, (n >>> 8).toUInt8, n.toUInt8]

/-- The octets of a number of 32 bits, the highest first. -/
def bigEndian32 (n : UInt32) : List UInt8 :=
  [(n >>> 24).toUInt8, (n >>> 16).toUInt8, (n >>> 8).toUInt8, n.toUInt8]

/-- The length written before a text of `n` octets: `n`, or the greatest length that four octets
can tell. -/
def lengthTag (n : Nat) : UInt32 :=
  UInt32.ofNat (min n 4294967295)

/-- A tagged field. -/
def encodeField : Option String → List UInt8
  | none => [0x00]
  | some s => 0x01 :: bigEndian32 (lengthTag (Text.utf8 s).length) ++ Text.utf8 s

/-- The fields of an event in the order of the encoding. -/
def Event.fields (e : Event) : List (Option String) :=
  [some e.dedupKey.text, some e.entityName, some e.action.name, some e.entityId,
    e.oldValues, e.newValues, e.userId, e.userEmail, some e.occurredAt.canonical,
    e.correlationId, e.remoteIp, e.userAgent]

/-- The canonical encoding of an event at a sequence. -/
def encode (sequence : UInt64) (event : Event) : List UInt8 :=
  bigEndian64 sequence ++ event.fields.flatMap encodeField

/-- The octets that an entry's hash is taken over. -/
def hashInput (sequence : UInt64) (event : Event) (previousHash : String) : List UInt8 :=
  encode sequence event ++ Text.utf8 previousHash

/-- The hash of an event at a sequence, after an entry with hash `previousHash`. -/
def hashEntry (sequence : UInt64) (event : Event) (previousHash : String) : String :=
  Sha256.hexDigest (hashInput sequence event previousHash)

/-- The first eight octets of a hash, by which people tell hashes apart; all of it if there are no
such characters. -/
def shortHash (hash : String) : String :=
  ((Text.firstOctets? 8 hash.toList).map String.ofList).getD hash

namespace Entry

/-- The octets that the hash of this entry is taken over. -/
def hashInput (e : Entry) : List UInt8 :=
  AuditChain.hashInput e.sequence e.event e.previousHash

/-- The hash that the fields of this entry call for. -/
def recompute (e : Entry) : String :=
  hashEntry e.sequence e.event e.previousHash

/-- The entry for an event at a place in the chain, with the hash its fields call for. -/
def sealed (sequence : UInt64) (event : Event) (previousHash : String) : Entry :=
  ⟨sequence, event, previousHash, hashEntry sequence event previousHash⟩

@[simp] theorem recompute_sealed (s : UInt64) (e : Event) (p : String) :
    (sealed s e p).recompute = (sealed s e p).hash := rfl

/-- The same entry with the hash its fields call for. -/
def reseal (e : Entry) : Entry :=
  { e with hash := e.recompute }

end Entry

end AuditChain
