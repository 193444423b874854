import AuditChain.Program

/-!
# Appending to the chain

To append an event means: look its key up, read the tail, link and hash, insert.  The store's
uniqueness constraints reject the loser of a race, who starts over from the lookup; so a chain
never forks, however many writers there are.  The insert is the only write.

How often a writer starts over is decided by a *tally*.  A lost sequence spends one attempt.  A
key that is taken spends none at first, for the next lookup will find the entry.  An unavailable
store spends a retry of its own.

## Main definitions

* `Outcome` — what became of an event.
* `Tally`, `Verdict`, `Tally.judge` — what follows from a failed attempt.
* `attempt` — one pass from the lookup to the insert.
* `submit` — passes until there is an outcome or an error.
* `appendAll` — events one after another.
-/

namespace AuditChain

/-- What became of a submitted event. -/
inductive Outcome where
  /-- A new entry was committed at the end of the chain. -/
  | appended (entry : Entry)
  /-- The key had been committed before; this is the stored entry. -/
  | duplicate (entry : Entry)
  deriving DecidableEq, Repr

/-- The entry that carries the event's key. -/
def Outcome.entry : Outcome → Entry
  | .appended e => e
  | .duplicate e => e

/-- The event had been committed before. -/
def Outcome.isDuplicate : Outcome → Bool
  | .appended _ => false
  | .duplicate _ => true

/-! ### Counting failures -/

/-- What the failed passes of a submission have spent. -/
structure Tally where
  /-- Attempts lost to other writers. -/
  attempts : Nat := 0
  /-- Times the store was unavailable. -/
  transient : Nat := 0
  /-- Times the key was found taken at the insert. -/
  collisions : Nat := 0
  deriving DecidableEq, Repr

/-- What follows from a failed pass. -/
inductive Verdict where
  /-- Start over, after the wait of a retry if one is due. -/
  | retry (tally : Tally) (wait : Option Nat)
  /-- The attempts are spent: look the key up once more. -/
  | exhausted (attempts : Nat)
  /-- Give up with an error. -/
  | giveUp (error : AuditError)
  deriving DecidableEq, Repr

namespace Tally

/-- What follows from a pass that lost an insert and has now spent `t`. -/
def afterLoss (p : RetryPolicy) (t : Tally) (wait : Option Nat) : Verdict :=
  if p.attempts ≤ t.attempts then .exhausted t.attempts else .retry t wait

/-- What follows from a pass that failed with a store error.  Only a lost sequence and an
unavailable store are waited for: a taken key resolves at the next lookup. -/
def judge (p : RetryPolicy) (t : Tally) : StoreError → Verdict
  | .uniqueViolation .sequence =>
    let t := { t with attempts := t.attempts + 1 }
    t.afterLoss p (some t.attempts)
  | .uniqueViolation .dedupKey =>
    let t := { t with collisions := t.collisions + 1 }
    let t := if t.collisions ≤ p.attempts then t else { t with attempts := t.attempts + 1 }
    t.afterLoss p none
  | .unavailable reason =>
    let t := { t with transient := t.transient + 1 }
    if p.transientRetries < t.transient then .giveUp (.transientStorage reason)
    else .retry t (some t.transient)
  | e => .giveUp (.storage e.message)

/-- How much the passes to come may still spend. -/
def left (p : RetryPolicy) (t : Tally) : Nat :=
  (p.attempts - t.attempts) + (p.attempts - t.collisions) + (p.transientRetries - t.transient)

/-- Every retry spends something. -/
theorem left_lt_of_judge {p : RetryPolicy} {t t' : Tally} {e : StoreError} {wait : Option Nat}
    (h : t.judge p e = .retry t' wait) : t'.left p < t.left p := by
  match e with
  | .uniqueViolation .sequence =>
    simp only [judge, afterLoss] at h
    split at h
    · simp at h
    · simp only [Verdict.retry.injEq] at h
      obtain ⟨rfl, _⟩ := h
      simp only [left] at *
      omega
  | .uniqueViolation .dedupKey =>
    simp only [judge, afterLoss] at h
    split at h
    · split at h
      · simp at h
      · simp only [Verdict.retry.injEq] at h
        obtain ⟨rfl, _⟩ := h
        simp only [left] at *
        omega
    · split at h
      · simp at h
      · simp only [Verdict.retry.injEq] at h
        obtain ⟨rfl, _⟩ := h
        simp only [left] at *
        omega
  | .unavailable _ =>
    simp only [judge] at h
    split at h
    · simp at h
    · simp only [Verdict.retry.injEq] at h
      obtain ⟨rfl, _⟩ := h
      simp only [left] at *
      omega
  | .corrupt _ _ => simp [judge] at h
  | .backend _ => simp [judge] at h

end Tally

/-! ### The program -/

open LedgerProgram (noting)

/-- One pass: lookup, tail, link and hash, insert.  There is no outcome if the caller cancelled
before the insert. -/
def attempt (event : Event) : LedgerProgram (Except StoreError (Option Outcome)) :=
  .ask (.find event.dedupKey) fun
  | .error e => .done (.error e)
  | .ok (some stored) => noting .known (.done (.ok (some (.duplicate stored))))
  | .ok none =>
    .ask .tail fun
    | .error e => .done (.error e)
    | .ok tail =>
      match ChainTail.nextLink? tail with
      | none => .crash .sequenceOverflow
      | some (sequence, previousHash) =>
        let entry := Entry.sealed sequence event previousHash
        .ask .cancelled fun stop =>
          if stop then .done (.ok none)
          else .ask (.insert entry) fun
            | .error e => .done (.error e)
            | .ok () => noting .committed (.done (.ok (some (.appended entry))))

/-- The last lookup of a writer whose attempts are spent: perhaps the winner carried the same
key. -/
def lastLookup (event : Event) (attempts : Nat) : LedgerProgram (Except AuditError Outcome) :=
  .ask (.find event.dedupKey) fun
  | .error e => .done (.error e.toAuditError)
  | .ok (some stored) => noting .known (.done (.ok (.duplicate stored)))
  | .ok none => noting .givenUp (.done (.error (.chainConflict event.dedupKey attempts)))

/-- Passes that have already spent `t`, until there is an outcome or an error. -/
def submitFrom (p : RetryPolicy) (event : Event) (t : Tally) :
    LedgerProgram (Except AuditError Outcome) :=
  .ask .cancelled fun stop =>
    if stop then noting .cancelled (.done (.error .cancelled))
    else (attempt event).bind fun
      | .ok (some outcome) => .done (.ok outcome)
      | .ok none => noting .cancelled (.done (.error .cancelled))
      | .error e =>
        match _h : t.judge p e with
        | .giveUp error => noting .givenUp (.done (.error error))
        | .exhausted attempts => lastLookup event attempts
        | .retry t' none => noting .retrying (submitFrom p event t')
        | .retry t' (some retry) =>
          noting .retrying (.ask (.pause (p.backoff retry)) fun stop =>
            if stop then .done (.error .cancelled) else submitFrom p event t')
termination_by t.left p
decreasing_by all_goals exact Tally.left_lt_of_judge _h

/-- Appends an event unless the caller cancels first. -/
def submit (p : RetryPolicy) (event : Event) : LedgerProgram (Except AuditError Outcome) :=
  submitFrom p event {}

/-- Appends events one after another, up to the first error. -/
def appendAll (p : RetryPolicy) : List Event → LedgerProgram (Except AuditError (List Outcome))
  | [] => .done (.ok [])
  | event :: events =>
    (submit p event).bind fun
    | .error e => .done (.error e)
    | .ok outcome =>
      (appendAll p events).bind fun
      | .error e => .done (.error e)
      | .ok outcomes => .done (.ok (outcome :: outcomes))

end AuditChain
