import AuditChain.Proofs.Append.Protocol
import AuditChain.Proofs.Store.Memory
import AuditChain.Proofs.Store.Schedule

/-!
# No fork

Writers who share a store read its tail in one call and use it in a later one, so every insert may
rest on a tail that is out of date.  It does no harm: the tail was that of a shorter chain, and
while its next sequence is free the chain has not grown.

Writers are answered in any order here; a lock that some of them share would only leave out some of
the orders.

## Main definitions

* `writers` — writers at work on a store.

## Main results

* `Run.chained` — the store holds a chain before every move of a run, and after it.
* `Run.brought` — a run brings entries of those events only that its programs append.
* `no_fork` — **the chain never forks, and what is committed stays where it is.**
-/

namespace AuditChain

open LawfulStore (Valid held)

variable {σ ι : Type}

/-- Writers at work on a store, each with an event and a policy. -/
def writers (s : σ) (policy : ι → RetryPolicy) (event : ι → Event) :
    Pool ledger ι σ (Except AuditError Outcome) :=
  ⟨s, fun i => submit (policy i) (event i)⟩

variable [Store σ] [LawfulStore σ] [DecidableEq ι] {s : σ} {policy : ι → RetryPolicy}
  {event : ι → Event} {h : List (Move ledger ι σ)}
  {Q : Pool ledger ι σ (Except AuditError Outcome)}

/-- What the store of a run is like: it has its account, and it holds a chain, now and before every
move. -/
structure Chained (s₀ : σ) (h : List (Move ledger ι σ)) (s : σ) : Prop where
  /-- The account of the run. -/
  account : Account s₀ h s
  /-- The store holds a chain, -/
  chain : IsChain (held s)
  /-- and did before every move. -/
  wasChain : ∀ m ∈ h, IsChain (held m.before)

/-- One move of somebody who only appends keeps the chain. -/
theorem Chained.move {s₀ s' : σ} (inv : Chained s₀ h s) {i : ι} {kind : Event → Prop}
    {x : Exchange ledger} (hask : MayAppendAny kind (transcript i h) x.request)
    (hans : Unreliable s x s') : Chained s₀ (⟨i, s, x, s'⟩ :: h) s' where
  account := inv.account.move i hans
  chain := by
    rcases hans.state_cases with rfl | ⟨e, reply, rfl, hins⟩
    · exact inv.chain
    · -- whatever the store reports, the entry was sealed for the place after a tail
      obtain ⟨-, tail, sequence, previousHash, before, hl, hlink, hsealed⟩ := hask
      -- that tail is the one of an older chain, all of which is still held
      have htail : ⟨.tail, .ok tail⟩ ∈ transcript i h := by
        rw [hl]
        exact List.mem_cons_of_mem _ List.mem_cons_self
      obtain ⟨m, hm, -, rfl⟩ := inv.account.tail_of_mem htail
      obtain ⟨-, hfree, hplace⟩ := LawfulStore.insert inv.account.valid hins
      rw [hsealed] at hfree hplace
      obtain ⟨happend, hchain⟩ :=
        (inv.wasChain m hm).place_sealed inv.chain (inv.account.kept_before hm) hlink hfree
      rw [hplace, happend]
      exact hchain
  wasChain := by
    intro m hm
    rcases List.mem_cons.mp hm with rfl | hm
    · exact inv.chain
    · exact inv.wasChain m hm

section Appending

variable {α : Type} {P Q : Pool ledger ι σ α} {kind : Event → Prop}

/-- Programs that only append keep the chain. -/
theorem Run.chained (hP : Valid P.state) (hchain : IsChain (held P.state))
    (hP' : ∀ i, Appends kind (P.program i) []) (hrun : Run Unreliable P h Q) :
    Chained P.state h Q.state := by
  refine hrun.invariant hP' ?_ ?_
  · exact ⟨.start hP, hchain, fun _ hm => absurd hm List.not_mem_nil⟩
  · intro h m inv hask hans
    exact inv.move hask hans

/-- The store is in a state that inserts lead to, and what it holds was held in the beginning or is
of one kind. -/
def Brought (s₀ : σ) (kind : Event → Prop) (s : σ) : Prop :=
  Valid s ∧ ∀ e ∈ held s, e ∈ held s₀ ∨ kind e.event

/-- One move of somebody who only appends events of one kind brings no entry of another. -/
theorem Brought.move {s₀ s s' : σ} (inv : Brought s₀ kind s) {l : Transcript ledger}
    {x : Exchange ledger} (hask : MayAppendAny kind l x.request) (hans : Unreliable s x s') :
    Brought s₀ kind s' := by
  obtain ⟨hvalid, hold⟩ := inv
  refine ⟨hans.valid hvalid, ?_⟩
  rcases hans.state_cases with rfl | ⟨d, reply, rfl, hins⟩
  · exact hold
  · obtain ⟨-, -, hplace⟩ := LawfulStore.insert hvalid hins
    intro e he
    rw [hplace] at he
    rcases mem_of_mem_place he with rfl | he
    · exact .inr hask.1
    · exact hold e he

/-- Programs that only append events of one kind bring no entries of another. -/
theorem Run.brought (hP : Valid P.state) (hP' : ∀ i, Appends kind (P.program i) [])
    (hrun : Run Unreliable P h Q) : Brought P.state kind Q.state := by
  let inv (_ : List (Move ledger ι σ)) (s : σ) : Prop := Brought P.state kind s
  show inv h Q.state
  refine hrun.invariant hP' ?_ ?_
  · exact ⟨hP, fun _ he => .inl he⟩
  · intro h m inv hask hans
    exact inv.move hask hans

end Appending

/-- The store holds a chain before every move of a run of writers, and after it. -/
theorem Run.chains (hs : Valid s) (hchain : IsChain (held s))
    (hrun : Run Unreliable (writers s policy event) h Q) : Chained s h Q.state := by
  have happends : ∀ i, Appends (fun _ => True) ((writers s policy event).program i) [] :=
    fun i => submit_appends trivial (policy i) []
  exact hrun.chained hs hchain happends

/-- **The chain never forks, and what is committed stays where it is.**  Writers share a store that
holds a chain; each of their calls may be answered in any order, may fail, and an insert may be
committed and reported as failed.  Then the store holds a chain whenever one looks, and what it held
at an earlier look is its beginning. -/
theorem no_fork {P : Pool ledger ι σ (Except AuditError Outcome)} {h' : List (Move ledger ι σ)}
    (hs : Valid s) (hchain : IsChain (held s))
    (hP : Run Unreliable (writers s policy event) h P) (hQ : Run Unreliable P h' Q) :
    IsChain (held Q.state) ∧ held P.state <+: held Q.state := by
  have before := hP.chains hs hchain
  have after := (hP.trans hQ).chains hs hchain
  refine ⟨after.chain, ?_⟩
  exact before.chain.toIsSlice.prefix_of_subset after.chain.toIsSlice
    (hQ.account before.account.valid).initial

/-- Two writers with a key each on an empty store. -/
def race : Pool ledger Bool MemoryStore (Except AuditError Outcome) :=
  writers .empty (fun _ => {}) fun b => .bare (if b then "first" else "second") "1"

/-- Both read the tail of the empty store; one insert is committed but reported as failed. -/
def raceStart : List (Bool × Answer) :=
  List.replicate 4 (true, .serve false) ++ List.replicate 4 (false, .serve false) ++
    [(false, .misreport (.unavailable "connection lost"))]

/-- The other loses its insert and starts over; the first one finds its entry. -/
def raceEnd : List (Bool × Answer) :=
  List.replicate 9 (true, .serve false) ++ List.replicate 5 (false, .serve false)

theorem no_fork_race :
    let P := (race.play raceStart).2
    let Q := (P.play raceEnd).2
    Valid race.state ∧ IsChain (held race.state) ∧
      (held P.state).map (fun e => e.event.dedupKey.text) = ["second"] ∧
      (held Q.state).map (fun e => e.event.dedupKey.text) = ["second", "first"] ∧
      IsChain (held Q.state) ∧ held P.state <+: held Q.state :=
  ⟨MemoryStore.indexed_empty, isChain_nil, by decide +kernel, by decide +kernel,
    no_fork (s := race.state) MemoryStore.indexed_empty isChain_nil (race.run_play raceStart)
      (Pool.run_play _ raceEnd)⟩

end AuditChain
