import AuditChain.Program

/-!
# Stores

A store keeps entries under their sequences and their keys.  Reads do not change it; an insert
that fails does not either, because it returns no store.

## Main definitions

* `Store` — the operations of a store.
* `Store.get` — the entry at one sequence.
* `Store.respond` — a store as the responder of ledger programs, for a caller who has or has not
  cancelled.
-/

namespace AuditChain

/-- The operations of a store of entries. -/
class Store (σ : Type) where
  /-- The entry stored under a key. -/
  find : σ → DedupKey → Except StoreError (Option Entry)
  /-- The end of the chain. -/
  tail : σ → Except StoreError (Option ChainTail)
  /-- The store with one entry more. -/
  insert : σ → Entry → Except StoreError σ
  /-- The entries with sequences from `first` to `last`, ascending, at most `limit` of them. -/
  range : σ → (first last limit : UInt64) → Except StoreError (List Entry)
  /-- The entries after the newest `offset`, descending, at most `limit` of them. -/
  latest : σ → (offset limit : UInt64) → Except StoreError Slice
  /-- The number of entries. -/
  count : σ → Except StoreError Nat

namespace Store

variable {σ : Type} [Store σ]

/-- The entry at a sequence. -/
def get (s : σ) (sequence : UInt64) : Except StoreError (Option Entry) :=
  (range s sequence sequence 1).map List.head?

/-- A store answers a request; `cancelled` tells whether the caller has cancelled. -/
def reply (cancelled : Bool) : (r : Request) → σ → r.Reply × σ
  | .find key, s => (find s key, s)
  | .tail, s => (tail s, s)
  | .insert entry, s =>
    match insert s entry with
    | .ok s' => (.ok (), s')
    | .error e => (.error e, s)
  | .range first last limit, s => (range s first last limit, s)
  | .latest offset limit, s => (latest s offset limit, s)
  | .count, s => (count s, s)
  | .cancelled, s => (cancelled, s)
  | .pause _, s => (cancelled, s)
  | .note _, s => ((), s)

/-- A store as the responder of ledger programs. -/
def respond (cancelled : Bool) (r : Request) (s : σ) : Except Crash r.Reply × σ :=
  let (reply, s) := reply cancelled r s
  (.ok reply, s)

/-- A program that asks goes on with the reply of the store. -/
theorem run_ask {α : Type} (cancelled : Bool) (r : Request) (next : r.Reply → LedgerProgram α)
    (s : σ) : (Program.ask r next : LedgerProgram α).run (respond cancelled) s =
      (next (reply cancelled r s).1).run (respond cancelled) (reply cancelled r s).2 := rfl

end Store

end AuditChain
