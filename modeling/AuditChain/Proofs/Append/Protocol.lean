import AuditChain.Append
import AuditChain.Proofs.Interleaving

/-!
# What a writer does

Read off the tree of a submission alone, whatever it is answered: an insert comes only after a
lookup that found nothing, a tail and a look at the cancellation, and its entry is sealed for the
place after that tail.  The submission stops at the first insert that is reported as done; all
other ways it ends come without one.

## Main definitions

* `Sealing` — the exchanges that come before the insert of an entry.
* `MayAppend`, `EndsAppend` — what a writer may ask, and how it may end.
* `MayAppendAny`, `Appends` — what anybody may ask who only appends events of one kind.

## Main results

* `attempt_obeys` — one pass keeps to this.
* `submit_obeys` — **a submission keeps to this**, however many passes it takes.
* `submit_appends` — it keeps to this also after whatever else its caller did.
-/

namespace AuditChain

open LedgerProgram (noting)

/-- A pass has looked up the key of `event` and found nothing, has read the tail, was not cancelled,
and has sealed `e` for the place after that tail. -/
def Sealing (event : Event) (l : Transcript ledger) (e : Entry) : Prop :=
  ∃ tail sequence previousHash before,
    l = ⟨.cancelled, false⟩ :: ⟨.tail, .ok tail⟩ :: ⟨.find event.dedupKey, .ok none⟩ :: before ∧
    ChainTail.nextLink? tail = some (sequence, previousHash) ∧
    e = Entry.sealed sequence event previousHash

/-- What a writer of `event` may ask: it inserts nothing but what it has sealed. -/
def MayAppend (event : Event) (l : Transcript ledger) : Request → Prop
  | .insert e => Sealing event l e
  | _ => True

/-- What a program may ask that does nothing to a store but append events of one kind. -/
def MayAppendAny (kind : Event → Prop) (l : Transcript ledger) : Request → Prop
  | .insert e => kind e.event ∧ Sealing e.event l e
  | _ => True

/-- A program with the exchanges `l` behind it appends events of one kind and does nothing else to a
store. -/
def Appends {α : Type} (kind : Event → Prop) (p : LedgerProgram α) (l : Transcript ledger) : Prop :=
  p.Obeys (MayAppendAny kind) (fun _ _ => True) l

/-- No insert was reported as done. -/
def NoneDone (l : Transcript ledger) : Prop :=
  ∀ e, ⟨.insert e, .ok ()⟩ ∉ l

/-- How a writer of `event` may end: with the entry of the insert it has just done, its first; with
the entry that a lookup has shown, having done no insert; or with an error and no insert. -/
def EndsAppend (event : Event) (l : Transcript ledger) : Except AuditError Outcome → Prop
  | .ok (.appended e) =>
    ∃ before, l = ⟨.note .committed, ()⟩ :: ⟨.insert e, .ok ()⟩ :: before ∧
      Sealing event before e ∧ NoneDone before
  | .ok (.duplicate e) => ⟨.find event.dedupKey, .ok (some e)⟩ ∈ l ∧ NoneDone l
  | .error _ => NoneDone l

/-- How one pass may end. -/
def EndsPass (event : Event) (l : Transcript ledger) : Except StoreError (Option Outcome) → Prop
  | .ok (some outcome) => EndsAppend event l (.ok outcome)
  | .ok none => NoneDone l
  | .error _ => NoneDone l

theorem Sealing.event_eq {event : Event} {l : Transcript ledger} {e : Entry}
    (h : Sealing event l e) : e.event = event := by
  obtain ⟨_, _, _, _, -, -, rfl⟩ := h
  rfl

/-- The exchanges behind a sealing do not matter to it. -/
theorem Sealing.append {event : Event} {l : Transcript ledger} {e : Entry} (h : Sealing event l e)
    (l₀ : Transcript ledger) : Sealing event (l ++ l₀) e := by
  obtain ⟨tail, sequence, previousHash, before, rfl, hlink, he⟩ := h
  exact ⟨tail, sequence, previousHash, before ++ l₀, rfl, hlink, he⟩

/-- A writer of one event appends events of its kind. -/
theorem MayAppend.any {event : Event} {kind : Event → Prop} (hkind : kind event)
    {l : Transcript ledger} {r : Request} (h : MayAppend event l r) (l₀ : Transcript ledger) :
    MayAppendAny kind (l ++ l₀) r := by
  cases r with
  | insert e =>
    have hsealing : Sealing event l e := h
    rw [MayAppendAny, hsealing.event_eq]
    exact ⟨hkind, hsealing.append l₀⟩
  | _ => trivial

theorem noneDone_nil : NoneDone [] :=
  fun _ => List.not_mem_nil

theorem NoneDone.cons {l : Transcript ledger} (h : NoneDone l) {x : Exchange ledger}
    (hx : ∀ e, x ≠ ⟨.insert e, .ok ()⟩) : NoneDone (x :: l) := by
  intro e he
  rcases List.mem_cons.mp he with heq | he
  · exact hx e heq.symm
  · exact h e he

variable {p : RetryPolicy} {event : Event} {l : Transcript ledger}

/-- One pass inserts only what it has sealed, and stops at an insert that is done. -/
theorem attempt_obeys (hl : NoneDone l) :
    (attempt event).Obeys (MayAppend event) (EndsPass event) l := by
  refine ⟨trivial, ?_⟩
  rintro (err | _ | stored)
  · exact hl.cons (by simp)
  · have hfind : NoneDone (⟨.find event.dedupKey, .ok none⟩ :: l) := hl.cons (by simp)
    refine ⟨trivial, ?_⟩
    rintro (err | tail)
    · exact hfind.cons (by simp)
    · have htail : NoneDone (⟨.tail, .ok tail⟩ :: ⟨.find event.dedupKey, .ok none⟩ :: l) :=
        hfind.cons (by simp)
      cases hlink : ChainTail.nextLink? tail with
      | none =>
        simp only [hlink]
        trivial
      | some link =>
        obtain ⟨sequence, previousHash⟩ := link
        simp only [hlink]
        refine ⟨trivial, ?_⟩
        rintro (_ | _)
        · -- not cancelled: the three exchanges so far are the sealing of the entry
          have hstop := htail.cons (x := ⟨.cancelled, false⟩) (by simp)
          have hsealed : Sealing event _ (Entry.sealed sequence event previousHash) :=
            ⟨tail, sequence, previousHash, l, rfl, hlink, rfl⟩
          refine ⟨hsealed, ?_⟩
          rintro (err | _)
          · exact hstop.cons (by simp)
          · exact ⟨trivial, fun _ => ⟨_, rfl, hsealed, hstop⟩⟩
        · exact htail.cons (by simp)
  · refine ⟨trivial, fun _ => ⟨?_, ?_⟩⟩
    · exact List.mem_cons_of_mem _ List.mem_cons_self
    · exact (hl.cons (by simp)).cons (by simp)

/-- The last lookup inserts nothing. -/
theorem lastLookup_obeys (hl : NoneDone l) (attempts : Nat) :
    (lastLookup event attempts).Obeys (MayAppend event) (EndsAppend event) l := by
  refine ⟨trivial, ?_⟩
  rintro (err | _ | stored)
  · exact hl.cons (by simp)
  · exact ⟨trivial, fun _ => (hl.cons (by simp)).cons (by simp)⟩
  · refine ⟨trivial, fun _ => ⟨?_, ?_⟩⟩
    · exact List.mem_cons_of_mem _ List.mem_cons_self
    · exact (hl.cons (by simp)).cons (by simp)

/-- The passes that are left keep to what one pass keeps to; every retry leaves fewer. -/
theorem submitFrom_obeys (t : Tally) (hl : NoneDone l) :
    (submitFrom p event t).Obeys (MayAppend event) (EndsAppend event) l := by
  -- both ways to retry go through `judge`, which always spends something of what is left
  induction hn : t.left p using Nat.strongRecOn generalizing t l with
  | ind n ih =>
    subst hn
    rw [submitFrom]
    refine ⟨trivial, ?_⟩
    rintro (_ | _)
    · refine (attempt_obeys (hl.cons (by simp))).bind ?_
      rintro l (err | _ | outcome) hend
      · have hl : NoneDone l := hend
        dsimp only
        split
        · exact ⟨trivial, fun _ => hl.cons (by simp)⟩
        · exact lastLookup_obeys hl _
        · rename_i t' hjudge
          exact ⟨trivial, fun _ =>
            ih _ (Tally.left_lt_of_judge hjudge) t' (hl.cons (by simp)) rfl⟩
        · rename_i t' retry hjudge
          refine ⟨trivial, fun _ => ⟨trivial, ?_⟩⟩
          rintro (_ | _)
          · exact ih _ (Tally.left_lt_of_judge hjudge) t' ((hl.cons (by simp)).cons (by simp)) rfl
          · exact (hl.cons (by simp)).cons (by simp)
      · have hl : NoneDone l := hend
        exact ⟨trivial, fun _ => hl.cons (by simp)⟩
      · exact hend
    · exact ⟨trivial, fun _ => (hl.cons (by simp)).cons (by simp)⟩

/-- **A submission inserts only what it has sealed** after a lookup and a tail, stops at the first
insert that is done, and ends in one of the ways described. -/
theorem submit_obeys (p : RetryPolicy) (event : Event) :
    (submit p event).Obeys (MayAppend event) (EndsAppend event) [] :=
  submitFrom_obeys {} noneDone_nil

/-- Whatever was exchanged before, a submission appends its event and does nothing else. -/
theorem submit_appends {kind : Event → Prop} (hkind : kind event) (p : RetryPolicy)
    (l : Transcript ledger) : Appends kind (submit p event) l :=
  (submit_obeys p event).behind (l := []) (fun _ _ hmay => hmay.any hkind l) fun _ _ _ => trivial

end AuditChain
