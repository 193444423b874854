import AuditChain.Entry
import AuditChain.Journal
import AuditChain.Retry

/-!
# Programs over an interface

A program is a tree of requests to its surroundings: each node asks one thing and goes on
according to the reply.  What the surroundings are is left open.  A program can be run against
one responder from start to end; programs of several writers can be run side by side, one request
at a time in any order; and what a program keeps true can be read off its tree.

## Main definitions

* `Interface` — the requests a program may make, and the type of each reply.
* `Program` — the tree; `Program.bind` chains programs.
* `Program.run` — a run against a responder with a state.
* `Interface.Embedding`, `Program.embed` — a program seen in a larger interface.
* `Request`, `ledger` — what the programs of this library ask of a store and its surroundings.
-/

namespace AuditChain

/-- The requests that a program may make, and the type of the reply to each. -/
structure Interface where
  /-- What may be asked. -/
  Request : Type
  /-- What each question is answered with. -/
  Reply : Request → Type

/-- A tree of requests with a result of type `α` at its leaves. -/
inductive Program (I : Interface) (α : Type) where
  /-- The program has its result. -/
  | done (a : α)
  /-- The program stops without a result. -/
  | crash (why : Crash)
  /-- The program asks something and goes on with the reply. -/
  | ask (r : I.Request) (next : I.Reply r → Program I α)

namespace Program

variable {I J : Interface} {α β γ σ : Type}

/-- Runs a second program on the result of a first one. -/
def bind : Program I α → (α → Program I β) → Program I β
  | done a, f => f a
  | crash why, _ => crash why
  | ask r next, f => ask r fun reply => (next reply).bind f

instance : Monad (Program I) where
  pure := done
  bind := bind

@[simp] theorem pure_eq (a : α) : (pure a : Program I α) = done a := rfl

@[simp] theorem done_bind (a : α) (f : α → Program I β) : (done a >>= f) = f a := rfl

@[simp] theorem crash_bind (why : Crash) (f : α → Program I β) :
    (crash why >>= f) = crash why := rfl

@[simp] theorem ask_bind (r : I.Request) (next : I.Reply r → Program I α)
    (f : α → Program I β) : (ask r next >>= f) = ask r fun reply => next reply >>= f := rfl

/-- Chaining with a program that only hands its input on changes nothing. -/
@[simp] theorem bind_done (p : Program I α) : (p >>= fun a => done a) = p := by
  induction p with
  | done a => rfl
  | crash why => rfl
  | ask r next ih => simp [ih]

/-- Chaining is associative. -/
theorem bind_assoc (p : Program I α) (f : α → Program I β) (g : β → Program I γ) :
    (p >>= f >>= g) = p >>= fun a => f a >>= g := by
  induction p with
  | done a => rfl
  | crash why => rfl
  | ask r next ih => simp [ih]

/-- Asks one thing and returns the reply. -/
def request (r : I.Request) : Program I (I.Reply r) :=
  ask r done

/-- Runs a program against a responder that keeps a state; the run ends with the program's
result, or where the program or the responder crashes. -/
def run (respond : (r : I.Request) → σ → Except Crash (I.Reply r) × σ) :
    Program I α → σ → Except Crash α × σ
  | done a, s => (.ok a, s)
  | crash why, s => (.error why, s)
  | ask r next, s =>
    match respond r s with
    | (.ok reply, s) => (next reply).run respond s
    | (.error why, s) => (.error why, s)

/-- A program that is chained goes on with the result of the first part. -/
theorem run_bind {respond : (r : I.Request) → σ → Except Crash (I.Reply r) × σ} {p : Program I α}
    {a : α} {s s' : σ} (h : p.run respond s = (.ok a, s')) (f : α → Program I β) :
    (p.bind f).run respond s = (f a).run respond s' := by
  induction p generalizing s with
  | done b =>
    simp only [run, Prod.mk.injEq, Except.ok.injEq] at h
    obtain ⟨rfl, rfl⟩ := h
    rfl
  | crash why => simp [run] at h
  | ask r next ih =>
    rw [run] at h
    rw [bind, run]
    split at h
    · exact ih _ h
    · simp at h

/-- A program that is chained ends where the first part crashes. -/
theorem run_bind_error {respond : (r : I.Request) → σ → Except Crash (I.Reply r) × σ}
    {p : Program I α} {why : Crash} {s s' : σ} (h : p.run respond s = (.error why, s'))
    (f : α → Program I β) : (p.bind f).run respond s = (.error why, s') := by
  induction p generalizing s with
  | done b => simp [run] at h
  | crash why =>
    simp only [run, Prod.mk.injEq, Except.error.injEq] at h
    obtain ⟨rfl, rfl⟩ := h
    rfl
  | ask r next ih =>
    rw [run] at h
    rw [bind, run]
    split at h
    · exact ih _ h
    · simp only [Prod.mk.injEq, Except.error.injEq] at h
      obtain ⟨rfl, rfl⟩ := h
      rfl

end Program

/-- A way to put the requests of one interface to another and to understand the replies. -/
structure Interface.Embedding (I J : Interface) where
  /-- The request as the other interface words it. -/
  request : I.Request → J.Request
  /-- What a reply of the other interface means. -/
  reply : (r : I.Request) → J.Reply (request r) → I.Reply r

/-- A program, its requests put to another interface. -/
def Program.embed {I J : Interface} {α : Type} (e : I.Embedding J) : Program I α → Program J α
  | done a => done a
  | crash why => crash why
  | ask r next => ask (e.request r) fun reply => (next (e.reply r reply)).embed e

/-! ### The interface of the ledger -/

/-- Entries read from the new end of a chain, and how many entries there are in all. -/
structure Slice where
  /-- The entries, the newest first. -/
  items : List Entry
  /-- The number of entries stored. -/
  total : Nat
  deriving DecidableEq, Repr

/-- What the programs of this library ask of a store and its surroundings. -/
inductive Request where
  /-- The entry stored under a key. -/
  | find (key : DedupKey)
  /-- The end of the chain. -/
  | tail
  /-- To store an entry. -/
  | insert (entry : Entry)
  /-- The entries with sequences from `first` to `last`, ascending, at most `limit` of them. -/
  | range (first last limit : UInt64)
  /-- The entries after the newest `offset`, descending, at most `limit` of them. -/
  | latest (offset limit : UInt64)
  /-- The number of entries. -/
  | count
  /-- Whether the caller has cancelled. -/
  | cancelled
  /-- To wait, and then to tell whether the caller has cancelled. -/
  | pause (wait : Duration)
  /-- To put a note into the journal. -/
  | note (n : Note)
  deriving DecidableEq, Repr

/-- What each request is answered with. -/
abbrev Request.Reply : Request → Type
  | .find _ => Except StoreError (Option Entry)
  | .tail => Except StoreError (Option ChainTail)
  | .insert _ => Except StoreError Unit
  | .range _ _ _ => Except StoreError (List Entry)
  | .latest _ _ => Except StoreError Slice
  | .count => Except StoreError Nat
  | .cancelled => Bool
  | .pause _ => Bool
  | .note _ => Unit

/-- The interface between the programs of this library and a store. -/
abbrev ledger : Interface := ⟨Request, Request.Reply⟩

/-- A program over a store. -/
abbrev LedgerProgram := Program ledger

namespace LedgerProgram

/-- Asks for the entry under a key. -/
def find (key : DedupKey) : LedgerProgram (Except StoreError (Option Entry)) :=
  .ask (.find key) .done

/-- Asks for the end of the chain. -/
def tail : LedgerProgram (Except StoreError (Option ChainTail)) :=
  .ask .tail .done

/-- Stores an entry. -/
def insert (entry : Entry) : LedgerProgram (Except StoreError Unit) :=
  .ask (.insert entry) .done

/-- Asks for the entries of a range. -/
def range (first last limit : UInt64) : LedgerProgram (Except StoreError (List Entry)) :=
  .ask (.range first last limit) .done

/-- Asks for entries from the new end. -/
def latest (offset limit : UInt64) : LedgerProgram (Except StoreError Slice) :=
  .ask (.latest offset limit) .done

/-- Asks for the number of entries. -/
def count : LedgerProgram (Except StoreError Nat) :=
  .ask .count .done

/-- Puts a note into the journal and goes on. -/
def noting {α : Type} (n : Note) (p : LedgerProgram α) : LedgerProgram α :=
  .ask (.note n) fun () => p

end LedgerProgram

/-- A reply of the store on a path that does not retry. -/
def withoutRetry {α : Type} : Except StoreError α → Except AuditError α
  | .ok a => .ok a
  | .error e => .error e.toAuditError

end AuditChain
