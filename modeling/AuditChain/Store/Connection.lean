import AuditChain.Store.Backing
import AuditChain.Workspace.Opening

/-!
# Connections

A connection leads to a store of its own, or to a ledger file that other connections may lead to
as well.

## Main definitions

* `Connection` — where the store is, and the state of its lock.
* `Site` — a connection in its working directory.
* `Responder` — anything that answers the requests of ledger programs.
-/

namespace AuditChain

/-- Where a connection leads. -/
inductive Target where
  /-- To a store of its own, or of those that share it by a name. -/
  | own (b : Backing) (shared : Option String)
  /-- To an open ledger file. -/
  | file (o : OpenFile)

/-- A connection to a store. -/
structure Connection where
  /-- Where it leads. -/
  target : Target
  /-- The state of its lock. -/
  latch : Latch := {}

namespace Connection

/-- A connection to a new store in memory. -/
def memory (m : MemoryStore) : Connection :=
  ⟨.own (.memory m) none, {}⟩

/-- A connection to an opened ledger. -/
def ledger : LedgerPlace → Connection
  | .nowhere shared => ⟨.own (.table .empty) shared, {}⟩
  | .file o => ⟨.file o, {}⟩

/-- A connection that was opened beside another one: if both share a ledger, it finds there what
the other one has left. -/
def beside (c other : Connection) : Connection :=
  match c.target, other.target with
  | .own _ (some name), .own b (some name') =>
    if name = name' then { c with target := .own b (some name) } else c
  | _, _ => c

/-- A connection leads to the file at a location. -/
def leadsTo (c : Connection) (l : Location) : Bool :=
  match c.target with
  | .own _ _ => false
  | .file o => o.location == l

/-- The store that a connection leads to. -/
def backing (c : Connection) (w : Workspace) : Backing :=
  match c.target with
  | .own b _ => b
  | .file o =>
    match o.view w with
    | .ok t => .table t
    | .error why => .hidden why

/-- The files after a connection was closed that has no others beside it; `before` are the files as it
has left them. -/
def close (c : Connection) (before w : Workspace) : Workspace :=
  match c.target with
  | .own _ _ => w
  | .file o => o.close before w

end Connection

/-- A call that ended in this way has written: an insert that did not fail. -/
def Request.hasWritten : (r : Request) → Except Crash r.Reply → Bool
  | .insert _, .ok (.error _) => false
  | .insert _, _ => true
  | _, _ => false

/-- A connection in its working directory. -/
structure Site where
  /-- The working directory. -/
  workspace : Workspace
  /-- The connection. -/
  connection : Connection

namespace Site

/-- The store that the connection leads to. -/
def backing (s : Site) : Backing :=
  s.connection.backing s.workspace

/-- The site after a call that left a lock and a store, and may have written to it. -/
def settle (s : Site) (wrote : Bool) (latch : Latch) (b : Backing) : Site :=
  let connection := { s.connection with latch }
  match s.connection.target, b with
  | .own _ shared, b => ⟨s.workspace, { connection with target := .own b shared }⟩
  | .file o, .table t => ⟨if wrote then o.write s.workspace t else s.workspace, connection⟩
  | .file _, _ => ⟨s.workspace, connection⟩

end Site

/-- Anything that answers the requests of ledger programs. -/
class Responder (σ : Type) where
  /-- The answer to a request, or a crash. -/
  respond : (r : Request) → σ → Except Crash r.Reply × σ

instance : Responder Site where
  respond r s :=
    let (reply, latch, b) := s.connection.latch.answer s.backing r
    (reply, s.settle (r.hasWritten reply) latch b)

/-- Runs a ledger program against a responder. -/
def LedgerProgram.runOn {σ α : Type} [Responder σ] (p : LedgerProgram α) (s : σ) :
    Except Crash α × σ :=
  p.run Responder.respond s

end AuditChain
