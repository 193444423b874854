import AuditChain.Proofs.Append.NoFork

/-!
# Engines

An engine submits events one after another.  Each of its submissions keeps to what a writer may ask,
so the engine does nothing to the store but append its events, and reads nothing but keys and tails.

## Main definitions

* `submissions` — the events of one engine, one after another.
* `engines` — engines at work on a store.
* `Request.IsWriters`, `Request.IsPasses` — what an engine asks of a store, and what a pass asks.

## Main results

* `submitFrom_asks_of` — what a submission asks, from what its passes ask and how it waits.
* `submissions_asks`, `submissions_appends` — what an engine asks.
-/

namespace AuditChain

/-- An engine submits events one after another, whatever becomes of them. -/
def submissions (p : RetryPolicy) :
    List Event → LedgerProgram (List (Except AuditError Outcome))
  | [] => .done []
  | event :: events =>
    (submit p event).bind fun result =>
      (submissions p events).bind fun results => .done (result :: results)

/-- Engines at work on a store, each with its policy and the events it has to submit. -/
def engines {ι σ : Type} (s : σ) (policy : ι → RetryPolicy) (events : ι → List Event) :
    Pool ledger ι σ (List (Except AuditError Outcome)) :=
  ⟨s, fun i => submissions (policy i) (events i)⟩

/-! ### What engines ask -/

/-- What an engine asks of a store: lookups, tails and inserts. -/
def Request.IsWriters : Request → Prop
  | .range _ _ _ => False
  | .latest _ _ => False
  | .count => False
  | _ => True

/-- What a pass asks, and a last lookup: what an engine asks, but never to wait. -/
def Request.IsPasses : Request → Prop
  | .pause _ => False
  | r => r.IsWriters

theorem Request.IsPasses.isWriters {r : Request} (h : r.IsPasses) : r.IsWriters := by
  cases r with
  | pause wait => exact h.elim
  | _ => exact h

theorem attempt_asks (event : Event) : (attempt event).Asks Request.IsPasses := by
  refine ⟨trivial, ?_⟩
  rintro (err | _ | stored)
  · trivial
  · refine ⟨trivial, ?_⟩
    rintro (err | tail)
    · trivial
    · cases hlink : ChainTail.nextLink? tail with
      | none =>
        simp only [hlink]
        trivial
      | some link =>
        simp only [hlink]
        refine ⟨trivial, ?_⟩
        rintro (_ | _)
        · refine ⟨trivial, ?_⟩
          rintro (err | _)
          · trivial
          · exact ⟨trivial, fun _ => trivial⟩
        · trivial
  · exact ⟨trivial, fun _ => trivial⟩

theorem lastLookup_asks (event : Event) (attempts : Nat) :
    (lastLookup event attempts).Asks Request.IsPasses := by
  refine ⟨trivial, ?_⟩
  rintro (err | _ | stored)
  · trivial
  · exact ⟨trivial, fun _ => trivial⟩
  · exact ⟨trivial, fun _ => trivial⟩

/-- A submission asks what its passes ask, and waits where a verdict says so. -/
theorem submitFrom_asks_of {kind : Request → Prop} {p : RetryPolicy}
    (hpass : ∀ r : Request, r.IsPasses → kind r)
    (hwait : ∀ (t t' : Tally) (e : StoreError) (retry : Nat),
      t.judge p e = .retry t' (some retry) → kind (.pause (p.backoff retry)))
    (event : Event) (t : Tally) : (submitFrom p event t).Asks kind := by
  have hnote : ∀ n : Note, kind (.note n) := fun n => hpass _ trivial
  -- every retry leaves less to spend
  induction hn : t.left p using Nat.strongRecOn generalizing t with
  | ind n ih =>
    subst hn
    rw [submitFrom]
    refine ⟨hpass _ trivial, ?_⟩
    rintro (_ | _)
    · refine ((attempt_asks event).mono hpass).bind ?_
      rintro (err | _ | outcome)
      · dsimp only
        split
        · exact ⟨hnote _, fun _ => trivial⟩
        · exact (lastLookup_asks event _).mono hpass
        · rename_i t' hjudge
          exact ⟨hnote _, fun _ => ih _ (Tally.left_lt_of_judge hjudge) t' rfl⟩
        · rename_i t' retry hjudge
          refine ⟨hnote _, fun _ => ⟨hwait t t' err retry hjudge, ?_⟩⟩
          rintro (_ | _)
          · exact ih _ (Tally.left_lt_of_judge hjudge) t' rfl
          · trivial
      · exact ⟨hnote _, fun _ => trivial⟩
      · trivial
    · exact ⟨hnote _, fun _ => trivial⟩

theorem submitFrom_asks (p : RetryPolicy) (event : Event) (t : Tally) :
    (submitFrom p event t).Asks Request.IsWriters :=
  submitFrom_asks_of (fun _ => Request.IsPasses.isWriters) (fun _ _ _ _ _ => trivial) event t

theorem submissions_asks (p : RetryPolicy) (events : List Event) :
    (submissions p events).Asks Request.IsWriters := by
  induction events with
  | nil => trivial
  | cons event events ih =>
    exact (submitFrom_asks p event {}).bind fun _ => ih.bind fun _ => trivial

theorem submissions_appends {kind : Event → Prop} (p : RetryPolicy) {events : List Event}
    (hkind : ∀ event ∈ events, kind event) (l : Transcript ledger) :
    Appends kind (submissions p events) l := by
  induction events generalizing l with
  | nil => trivial
  | cons event events ih =>
    obtain ⟨hevent, hevents⟩ := List.forall_mem_cons.mp hkind
    exact (submit_appends hevent p l).bind fun l _ _ => (ih hevents l).bind fun _ _ _ => trivial

end AuditChain
