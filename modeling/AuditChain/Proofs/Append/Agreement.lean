import AuditChain.Proofs.Append.NoFork

/-!
# Agreement on a key

Deliveries of one event share a key, and writers may race with them.  However the writers end —
with a lookup, with an insert of their own, with a lookup after a lost one — they are told of one
and the same entry, and at most one of them is told that the entry is its own.

## Main definitions

* `Pool.told`, `Pool.failure` — what a writer was told, or the error that it has ended with.
* `Faithful` — no insert that was reported as failed has changed the store.
* `Agreement` — what the ends of all writers have in common.

## Main results

* `Run.ends` — how a writer ends within a run.
* `Account.held_of_ends` — what a submission ends with is held.
* `Run.insert_of_appended` — who is told of an entry of its own has made the insert.
* `agreement` — **writers agree on every key.**
-/

namespace AuditChain

open LawfulStore (Valid held)

variable {σ ι : Type} {s : σ} {policy : ι → RetryPolicy} {event : ι → Event}
  {h : List (Move ledger ι σ)} {Q : Pool ledger ι σ (Except AuditError Outcome)} {i j : ι}

/-- What a writer was told that has ended well. -/
def Pool.told (Q : Pool ledger ι σ (Except AuditError Outcome)) (i : ι) : Option Outcome :=
  match Q.program i with
  | .done (.ok outcome) => some outcome
  | _ => none

/-- The error that a writer has ended with. -/
def Pool.failure (Q : Pool ledger ι σ (Except AuditError Outcome)) (i : ι) : Option AuditError :=
  match Q.program i with
  | .done (.error e) => some e
  | _ => none

theorem Pool.told_eq_some_iff {outcome : Outcome} :
    Q.told i = some outcome ↔ Q.program i = .done (.ok outcome) := by
  unfold told
  constructor
  · intro h
    split at h
    · rename_i hend
      rw [hend, Option.some.inj h]
    · exact absurd h (by simp)
  · intro h
    rw [h]

variable [Store σ] [DecidableEq ι]

/-- A writer that was told of an outcome has ended as a submission does. -/
theorem Run.ends (hrun : Run Unreliable (writers s policy event) h Q) {outcome : Outcome}
    (htold : Q.told i = some outcome) : EndsAppend (event i) (transcript i h) (.ok outcome) := by
  have hobeys : ∀ i, ((writers s policy event).program i).Obeys (MayAppend (event i))
      (EndsAppend (event i)) [] := fun i => submit_obeys (policy i) (event i)
  have hi := hrun.obeys hobeys i
  rwa [Pool.told_eq_some_iff.mp htold] at hi

/-- A writer that is told of an entry of its own has made the insert. -/
theorem Run.insert_of_appended (hrun : Run Unreliable (writers s policy event) h Q) {e : Entry}
    (htold : Q.told i = some (.appended e)) :
    e.event = event i ∧ ∃ m ∈ h, m.who = i ∧ m.exchange = ⟨.insert e, .ok ()⟩ := by
  obtain ⟨before, hl, hsealed, -⟩ := hrun.ends htold
  refine ⟨hsealed.event_eq, mem_transcript.mp ?_⟩
  rw [hl]
  exact List.mem_cons_of_mem _ List.mem_cons_self

variable [LawfulStore σ]

/-- What a submission ends with is held, under the key of its event. -/
theorem Account.held_of_ends {s₀ : σ} (acc : Account s₀ h s) {l : Transcript ledger}
    (hl : l ⊆ transcript i h) {event : Event} {outcome : Outcome}
    (hends : EndsAppend event l (.ok outcome)) :
    outcome.entry ∈ held s ∧ outcome.entry.event.dedupKey = event.dedupKey := by
  cases outcome with
  | appended e =>
    obtain ⟨before, rfl, hsealed, -⟩ := hends
    obtain ⟨m, hm, -, hx⟩ := mem_transcript.mp (hl (List.mem_cons_of_mem _ List.mem_cons_self))
    exact ⟨acc.kept m hm (acc.of_insert hm hx).2, congrArg Event.dedupKey hsealed.event_eq⟩
  | duplicate e => exact acc.held_of_find (hl hends.1)

/-- What a writer is told of is held, under the key of its event. -/
theorem Run.held_of_told (hs : Valid s) (hrun : Run Unreliable (writers s policy event) h Q)
    {outcome : Outcome} (htold : Q.told i = some outcome) :
    outcome.entry ∈ held Q.state ∧ outcome.entry.event.dedupKey = (event i).dedupKey :=
  (hrun.account hs).held_of_ends (List.Subset.refl _) (hrun.ends htold)

/-- Of two writers of one key, at most one is told of an entry of its own: the later insert would
have found the key taken. -/
theorem Run.appended_unique (hs : Valid s) (hrun : Run Unreliable (writers s policy event) h Q)
    {d e : Entry} (hi : Q.told i = some (.appended d)) (hj : Q.told j = some (.appended e))
    (hkey : (event i).dedupKey = (event j).dedupKey) : i = j := by
  by_contra hne
  have acc := hrun.account hs
  obtain ⟨hd, m, hm, rfl, hmx⟩ := hrun.insert_of_appended hi
  obtain ⟨he, n, hn, rfl, hnx⟩ := hrun.insert_of_appended hj
  have hde : d.event.dedupKey = e.event.dedupKey := by rw [hd, he, hkey]
  obtain ⟨hdfree, hdheld⟩ := acc.of_insert hm hmx
  obtain ⟨hefree, heheld⟩ := acc.of_insert hn hnx
  have hmn : m ≠ n := fun heq => hne (congrArg Move.who heq)
  -- whichever insert came later found the entry of the other one held
  rcases acc.subset_or_subset hm hn hmn with hsub | hsub
  · exact (hdfree e (hsub heheld)).2 hde.symm
  · exact (hefree d (hsub hdheld)).2 hde

/-- No insert that was reported as failed has changed the store. -/
def Faithful (h : List (Move ledger ι σ)) : Prop :=
  ∀ m ∈ h, ∀ e err, m.exchange = ⟨.insert e, .error err⟩ → held m.after = held m.before

/-- Where failed inserts change nothing, a writer that is told of a stored entry has not brought it
itself. -/
theorem Run.other_of_duplicate (hs : Valid s)
    (hrun : Run Unreliable (writers s policy event) h Q) (hfaithful : Faithful h) {e : Entry}
    (htold : Q.told i = some (.duplicate e)) :
    e ∈ held s ∨ ∃ m ∈ h, m.who ≠ i ∧ m.Adds e := by
  have acc := hrun.account hs
  obtain ⟨-, hnone⟩ := hrun.ends htold
  rcases acc.origin e (hrun.held_of_told hs htold).1 with h0 | ⟨m, hm, hadds⟩
  · exact .inl h0
  · refine .inr ⟨m, hm, ?_, hadds⟩
    rintro rfl
    obtain ⟨d, reply, hx⟩ := acc.insert_of_adds hm hadds
    -- its own insert was not reported as done, so it was reported as failed
    cases reply with
    | ok done => exact hnone d (mem_transcript.mpr ⟨m, hm, rfl, hx⟩)
    | error err =>
      rw [Move.Adds, hfaithful m hm d err hx] at hadds
      exact hadds.1 hadds.2

/-- What the ends of all writers have in common, whoever has ended so far. -/
structure Agreement (s : σ) (event : ι → Event) (h : List (Move ledger ι σ))
    (Q : Pool ledger ι σ (Except AuditError Outcome)) : Prop where
  /-- At most one writer of a key is told of an entry of its own. -/
  winner : ∀ i j d e, Q.told i = some (.appended d) → Q.told j = some (.appended e) →
    (event i).dedupKey = (event j).dedupKey → i = j
  /-- What a writer is told of is then and later the one entry held under the key of its event. -/
  stored : ∀ i outcome, Q.told i = some outcome → ∀ h' R, Run Unreliable Q h' R →
    ∀ e, e ∈ held R.state ∧ e.event.dedupKey = (event i).dedupKey ↔ e = outcome.entry
  /-- All writers of a key are told of the same entry. -/
  same : ∀ i j a b, Q.told i = some a → Q.told j = some b →
    (event i).dedupKey = (event j).dedupKey → a.entry = b.entry
  /-- Where failed inserts change nothing, an entry that a writer is told of as stored was held in
  the beginning or brought by another writer. -/
  others : Faithful h → ∀ i e, Q.told i = some (.duplicate e) →
    e ∈ held s ∨ ∃ m ∈ h, m.who ≠ i ∧ m.Adds e

/-- **Writers agree on every key.**  Writers share a store, and their events may have any keys; each
of their calls may be answered in any order, may fail, and an insert may be committed and reported
as failed.  Then at any time, those who have ended well agree. -/
theorem agreement (hs : Valid s) (hrun : Run Unreliable (writers s policy event) h Q) :
    Agreement s event h Q where
  winner := fun _ _ _ _ hi hj hkey => hrun.appended_unique hs hi hj hkey
  stored := by
    intro i outcome htold h' R hlater e
    have hwhole := hrun.trans hlater
    have hstill : R.told i = some outcome :=
      Pool.told_eq_some_iff.mpr (hlater.done_stays (Pool.told_eq_some_iff.mp htold))
    obtain ⟨hheld, hkey⟩ := hwhole.held_of_told hs hstill
    constructor
    · rintro ⟨he, hekey⟩
      exact (hwhole.account hs).eq_of_key_eq he hheld (hekey.trans hkey.symm)
    · rintro rfl
      exact ⟨hheld, hkey⟩
  same := by
    intro i j a b hi hj hkey
    obtain ⟨ha, hakey⟩ := hrun.held_of_told hs hi
    obtain ⟨hb, hbkey⟩ := hrun.held_of_told hs hj
    refine (hrun.account hs).eq_of_key_eq ha hb ?_
    rw [hakey, hbkey, hkey]
  others := fun hfaithful _ _ htold => hrun.other_of_duplicate hs hfaithful htold

/-- Two deliveries of one event, which differ in what they tell about it. -/
def deliveries (b : Bool) : Event :=
  .bare "delivery" (if b then "1" else "2")

/-- Both writers look the key up in vain; one of them makes its insert, and the other loses its own,
starts over and finds the entry. -/
def deliveryTurns : List (Bool × Answer) :=
  List.replicate 4 (false, .serve false) ++ List.replicate 6 (true, .serve false) ++
    List.replicate 6 (false, .serve false)

theorem agreement_deliveries :
    let P := writers MemoryStore.empty (fun _ => {}) deliveries
    let Q := (P.play deliveryTurns).2
    Valid P.state ∧ (Q.told true).map Outcome.isDuplicate = some false ∧
      (Q.told false).map Outcome.isDuplicate = some true ∧
      Agreement P.state deliveries (P.play deliveryTurns).1 Q :=
  ⟨MemoryStore.indexed_empty, by decide +kernel, by decide +kernel,
    agreement MemoryStore.indexed_empty
      ((writers MemoryStore.empty (fun _ => {}) deliveries).run_play deliveryTurns)⟩

end AuditChain
