import AuditChain.Proofs.Append.Engines
import AuditChain.Proofs.Shown

/-!
# What a submission makes of what it is told

A submission looks at an entry that it is told only to hand it on.  So a submission that is told of
entries as they are shown asks the same as one that is told of them as they are, and comes to the
same, except that the entry of a duplicate is handed on as it was told.

## Main definitions

* `Request.shownReply`, `Exchange.shown` — an answer with its entries as they are shown.
* `Program.ShownAs` — a program does what another one does that is told of entries as they are.
* `Outcome.told` — what becomes of an event, where its entry is told as it is shown.

## Main results

* `Program.ShownAs.bind` — a chain of programs does so if its parts do.
* `submissions_shownAs` — **an engine does what it does**, whichever of the two it is told.
-/

namespace AuditChain

/-! ### Answers -/

/-- The entries that were read, as they are shown. -/
def Slice.shown (s : Slice) : Slice :=
  { s with items := s.items.map Entry.shown }

/-- The answer to a request with its entries as they are shown. -/
def Request.shownReply : (r : Request) → r.Reply → r.Reply
  | .find _, reply => reply.map (Option.map Entry.shown)
  | .range _ _ _, reply => reply.map (List.map Entry.shown)
  | .latest _ _, reply => reply.map Slice.shown
  | .tail, reply => reply
  | .insert _, reply => reply
  | .count, reply => reply
  | .cancelled, reply => reply
  | .pause _, reply => reply
  | .note _, reply => reply

/-- A request with its answer as it is shown. -/
def Exchange.shown (x : Exchange ledger) : Exchange ledger :=
  ⟨x.request, Request.shownReply x.request x.reply⟩

/-! ### Programs -/

/-- The second program asks what the first one asks if it is told of entries as they are shown, and
ends with what `f` makes of the result of the first one. -/
def Program.ShownAs {α : Type} (f : α → α) : LedgerProgram α → LedgerProgram α → Prop
  | .done a, p' => p' = .done (f a)
  | .crash why, p' => p' = .crash why
  | .ask r next, p' => ∃ next', p' = .ask r next' ∧
      ∀ reply, (next reply).ShownAs f (next' (Request.shownReply r reply))

/-- A chain of programs is shown as a chain of what its parts are shown as. -/
theorem Program.ShownAs.bind {α β : Type} {f : α → α} {g : β → β} {p p' : LedgerProgram α}
    {k k' : α → LedgerProgram β} (hp : p.ShownAs f p') (hk : ∀ a, (k a).ShownAs g (k' (f a))) :
    Program.ShownAs g (p.bind k) (p'.bind k') := by
  induction p generalizing p' with
  | done a =>
    obtain rfl : p' = .done (f a) := hp
    exact hk a
  | crash why =>
    obtain rfl : p' = .crash why := hp
    rfl
  | ask r next ih =>
    obtain ⟨next', rfl, hnext⟩ := hp
    exact ⟨_, rfl, fun reply => ih reply (hnext reply)⟩

/-! ### Submissions -/

/-- What becomes of an event, where a duplicate is told of its entry as it is shown.  An entry that
was appended is the caller's own. -/
def Outcome.told : Outcome → Outcome
  | .appended e => .appended e
  | .duplicate e => .duplicate e.shown

theorem attempt_shownAs (event : Event) :
    (attempt event).ShownAs (Except.map (Option.map Outcome.told)) (attempt event) := by
  refine ⟨_, rfl, ?_⟩
  rintro (err | _ | stored)
  · rfl
  · refine ⟨_, rfl, ?_⟩
    rintro (err | tail)
    · rfl
    · cases hlink : ChainTail.nextLink? tail with
      | none =>
        simp only [Request.shownReply, hlink]
        rfl
      | some link =>
        simp only [Request.shownReply, hlink]
        refine ⟨_, rfl, ?_⟩
        rintro (_ | _)
        · refine ⟨_, rfl, ?_⟩
          rintro (err | _)
          · rfl
          · exact ⟨_, rfl, fun _ => rfl⟩
        · rfl
  · exact ⟨_, rfl, fun _ => rfl⟩

theorem lastLookup_shownAs (event : Event) (attempts : Nat) :
    (lastLookup event attempts).ShownAs (Except.map Outcome.told) (lastLookup event attempts) := by
  refine ⟨_, rfl, ?_⟩
  rintro (err | _ | stored)
  · rfl
  · exact ⟨_, rfl, fun _ => rfl⟩
  · exact ⟨_, rfl, fun _ => rfl⟩

theorem submitFrom_shownAs (p : RetryPolicy) (event : Event) (t : Tally) :
    (submitFrom p event t).ShownAs (Except.map Outcome.told) (submitFrom p event t) := by
  -- every retry leaves less to spend
  induction hn : t.left p using Nat.strongRecOn generalizing t with
  | ind n ih =>
    subst hn
    rw [submitFrom]
    refine ⟨_, rfl, ?_⟩
    rintro (_ | _)
    · refine (attempt_shownAs event).bind ?_
      rintro (err | _ | outcome)
      · simp only [Except.map]
        split
        · exact ⟨_, rfl, fun _ => rfl⟩
        · exact lastLookup_shownAs event _
        · rename_i t' hjudge
          exact ⟨_, rfl, fun _ => ih _ (Tally.left_lt_of_judge hjudge) t' rfl⟩
        · rename_i t' retry hjudge
          refine ⟨_, rfl, fun _ => ⟨_, rfl, ?_⟩⟩
          rintro (_ | _)
          · exact ih _ (Tally.left_lt_of_judge hjudge) t' rfl
          · rfl
      · exact ⟨_, rfl, fun _ => rfl⟩
      · rfl
    · exact ⟨_, rfl, fun _ => rfl⟩

/-- **An engine does what it does**, whether it is told of entries as they are or as they are shown;
what differs is the entries of its duplicates. -/
theorem submissions_shownAs (p : RetryPolicy) (events : List Event) :
    (submissions p events).ShownAs (List.map (Except.map Outcome.told)) (submissions p events) := by
  induction events with
  | nil => rfl
  | cons event events ih =>
    exact (submitFrom_shownAs p event {}).bind fun _ => ih.bind fun _ => rfl

end AuditChain
