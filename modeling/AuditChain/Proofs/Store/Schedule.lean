import AuditChain.Proofs.Store.Lawful

/-!
# Schedules

A schedule tells who is to be answered next, and how.  To play it is to make a run, so that runs
can be computed.

## Main definitions

* `Answer` — one way to answer a request.
* `Pool.turn`, `Pool.play` — one caller answered, and one after another.

## Main results

* `Pool.run_play_of` — **playing a schedule is a run.**
-/

namespace AuditChain

/-- How a request is answered. -/
inductive Answer where
  /-- By the store; the caller has cancelled or not. -/
  | serve (cancelled : Bool)
  /-- With a failure, and nothing happens. -/
  | fail (e : StoreError)
  /-- With a failure, although the store does what is asked. -/
  | misreport (e : StoreError)
  deriving DecidableEq, Repr

variable {σ ι α : Type} [Store σ]

/-- The reply to a request, and the store after it. -/
def Answer.apply (r : Request) (s : σ) : Answer → r.Reply × σ
  | .serve cancelled => Store.reply cancelled r s
  | .fail e => (r.failure e, s)
  | .misreport e => (r.failure e, (Store.reply false r s).2)

/-- Every answer is one that may be given. -/
theorem Answer.unreliable (a : Answer) (r : Request) (s : σ) :
    Unreliable s ⟨r, (a.apply r s).1⟩ (a.apply r s).2 := by
  cases a with
  | serve cancelled => exact .inl ⟨cancelled, rfl⟩
  | fail e => exact .inr (.inl ⟨rfl, e, rfl⟩)
  | misreport e =>
    cases r with
    | insert entry =>
      cases hins : Store.insert s entry with
      | ok s' =>
        refine .inr (.inr ⟨entry, e, rfl, ?_⟩)
        simp [apply, Store.reply, hins]
      | error err =>
        refine .inr (.inl ⟨?_, e, rfl⟩)
        simp [apply, Store.reply, hins]
    | _ => exact .inr (.inl ⟨rfl, e, rfl⟩)

namespace Pool

variable [DecidableEq ι]

/-- Answers a caller who waits for an answer. -/
def turn (P : Pool ledger ι σ α) (i : ι) (a : Answer) :
    List (Move ledger ι σ) × Pool ledger ι σ α :=
  match P.program i with
  | .ask r next =>
    let (reply, s) := a.apply r P.state
    ([⟨i, P.state, ⟨r, reply⟩, s⟩], ⟨s, Function.update P.program i (next reply)⟩)
  | _ => ([], P)

/-- Answers one caller after another. -/
def play (P : Pool ledger ι σ α) :
    List (ι × Answer) → List (Move ledger ι σ) × Pool ledger ι σ α
  | [] => ([], P)
  | (i, a) :: rest =>
    let (h, Q) := P.turn i a
    let (h', R) := Q.play rest
    (h' ++ h, R)

/-- Answering a caller is a run, in whatever way the caller is answered. -/
theorem run_turn_of {answers : σ → Exchange ledger → σ → Prop} (P : Pool ledger ι σ α) (i : ι)
    {a : Answer} (ha : ∀ r s, answers s ⟨r, (a.apply r s).1⟩ (a.apply r s).2) :
    Run answers P (P.turn i a).1 (P.turn i a).2 := by
  unfold turn
  split
  · rename_i r next hask
    exact Run.start.move hask (ha r P.state)
  · exact .start

/-- **Playing a schedule is a run**, in whatever way the callers are answered. -/
theorem run_play_of {answers : σ → Exchange ledger → σ → Prop} (P : Pool ledger ι σ α)
    (schedule : List (ι × Answer))
    (hschedule : ∀ turn ∈ schedule, ∀ r s,
      answers s ⟨r, (turn.2.apply r s).1⟩ (turn.2.apply r s).2) :
    Run answers P (P.play schedule).1 (P.play schedule).2 := by
  induction schedule generalizing P with
  | nil => exact .start
  | cons turn rest ih =>
    obtain ⟨hturn, hrest⟩ := List.forall_mem_cons.mp hschedule
    obtain ⟨i, a⟩ := turn
    exact (P.run_turn_of i hturn).trans (ih (P.turn i a).2 hrest)

theorem run_turn (P : Pool ledger ι σ α) (i : ι) (a : Answer) :
    Run Unreliable P (P.turn i a).1 (P.turn i a).2 :=
  P.run_turn_of i a.unreliable

theorem run_play (P : Pool ledger ι σ α) (schedule : List (ι × Answer)) :
    Run Unreliable P (P.play schedule).1 (P.play schedule).2 :=
  P.run_play_of schedule fun turn _ => turn.2.unreliable

end Pool

end AuditChain
