import AuditChain.Proofs.Append.Agreement

/-!
# What a submission does to the store

A submission that ends with an entry of its own has put that entry right behind the tail, in one
move, and has done nothing else to the store; one that ends in any other way has done nothing at
all.  This holds of writers who share a store in which failed calls change nothing, and of whatever
the store holds, chains or not: the store need only keep its sequences apart and tell its tail.

An insert rests on a tail that was read before, so what has to be shown is that the tail is still
the same.  Every writer puts its entry at the sequence right after the tail that it has read; if
something had come in since then, the first of it would be at that sequence, and the insert would
have been refused.

## Main definitions

* `KeepsOrder` — a store that keeps its sequences apart and tells its tail.
* `Truthful` — the ways to answer a request without changing the store behind the caller's back.
* `Outgrows` — the newer content is the older one, with entries right behind it.
* `Idle`, `WroteOnly` — what the moves of one caller have come to.

## Main results

* `Grown.of_sealing` — an insert that rests on an older tail goes behind the tail that there is.
* `Run.grown` — what is shared by those who only append only grows behind its tail.
* `submit_effect` — **a submission has written just what it reports.**
-/

namespace AuditChain

variable {σ ι : Type}

/-! ### Stores -/

/-- A store keeps its sequences apart and tells its tail.  Keys do not matter here. -/
structure KeepsOrder (σ : Type) [Store σ] (Valid : σ → Prop) (held : σ → List Entry) : Prop where
  /-- The entries ascend. -/
  ascending {s : σ} : Valid s → Ascending Entry.sequence (held s)
  /-- A tail that can be read is that of the last entry. -/
  tail {s : σ} {t : Option ChainTail} : Valid s → Store.tail s = .ok t →
    t = (held s).getLast?.map Entry.tail
  /-- An insert that succeeds puts an entry at its place, which was free. -/
  insert {s s' : σ} {e : Entry} : Valid s → Store.insert s e = .ok s' →
    Valid s' ∧ (∀ d ∈ held s, d.sequence ≠ e.sequence) ∧
      held s' = place Entry.sequence e (held s)

/-- A store that keeps to the contract does. -/
theorem keepsOrder_of_lawful [Store σ] [LawfulStore σ] :
    KeepsOrder σ LawfulStore.Valid LawfulStore.held where
  ascending := LawfulStore.ascending
  tail := LawfulStore.tail
  insert := by
    intro s s' e hs hins
    obtain ⟨hs', hfree, hplace⟩ := LawfulStore.insert hs hins
    exact ⟨hs', fun d hd => (hfree d hd).1, hplace⟩

/-- A store in memory does, whatever it was loaded with. -/
theorem MemoryStore.keepsOrder : KeepsOrder MemoryStore (fun _ => True) MemoryStore.entries where
  ascending := fun {m} _ => m.ascending
  tail := fun _ ht => (Except.ok.inj ht).symm
  insert := by
    intro m m' e _ hins
    obtain ⟨hfree, -, rfl⟩ := MemoryStore.insert_eq_ok_iff.mp hins
    exact ⟨trivial, hfree, rfl⟩

section Answers

variable [Store σ] {s s' : σ} {x : Exchange ledger}

/-- The store answers, or the call fails and nothing has happened. -/
def Truthful (s : σ) (x : Exchange ledger) (s' : σ) : Prop :=
  Serves s x s' ∨ Fails s x s'

namespace Truthful

theorem unreliable (h : Truthful s x s') : Unreliable s x s' :=
  h.imp_right Or.inl

/-- An answer leaves the store as it is, or it reports an insert that is done. -/
theorem state_cases (h : Truthful s x s') :
    s' = s ∨ ∃ e, x = ⟨.insert e, .ok ()⟩ ∧ Store.insert s e = .ok s' := by
  rcases h with hserves | ⟨rfl, -⟩
  · have hunreliable : Unreliable s x s' := .inl hserves
    rcases hunreliable.state_cases with hsame | ⟨e, reply, rfl, hins⟩
    · exact .inl hsame
    · obtain ⟨cancelled, hreply⟩ := hserves
      simp only [Store.reply, hins, Prod.mk.injEq] at hreply
      exact .inr ⟨e, by rw [← hreply.1], hins⟩
  · exact .inl rfl

end Truthful

/-- The answer tells what has happened to the store. -/
def Answer.isHonest : Answer → Bool
  | .serve _ => true
  | .fail _ => true
  | .misreport _ => false

theorem Answer.truthful {a : Answer} (ha : a.isHonest = true) (r : Request) (s : σ) :
    Truthful s ⟨r, (a.apply r s).1⟩ (a.apply r s).2 := by
  cases a with
  | serve cancelled => exact .inl ⟨cancelled, rfl⟩
  | fail e => exact .inr ⟨rfl, e, rfl⟩
  | misreport e => cases ha

end Answers

/-! ### Growing behind the tail -/

/-- The newer content is the older one, with entries right behind it. -/
def Outgrows (new old : List Entry) : Prop :=
  ∃ rest, new = old ++ rest ∧ ∀ e ∈ rest.head?, ∃ previousHash,
    ChainTail.nextLink? (old.getLast?.map Entry.tail) = some (e.sequence, previousHash)

namespace Outgrows

variable {new old : List Entry} {e : Entry} {sequence : UInt64} {previousHash : String}

theorem refl (es : List Entry) : Outgrows es es :=
  ⟨[], (List.append_nil es).symm, by simp⟩

/-- Where the sequence after an older tail is free, nothing has come in since. -/
theorem eq_of_free (h : Outgrows new old)
    (hlink : ChainTail.nextLink? (old.getLast?.map Entry.tail) = some (sequence, previousHash))
    (hfree : ∀ d ∈ new, d.sequence ≠ sequence) : new = old := by
  obtain ⟨rest, rfl, hrest⟩ := h
  cases rest with
  | nil => exact List.append_nil old
  | cons d rest =>
    obtain ⟨link, hd⟩ := hrest d rfl
    have htaken : d.sequence = sequence := by
      rw [hlink] at hd
      exact (Prod.mk.inj (Option.some.inj hd)).1.symm
    exact absurd htaken (hfree d (by simp))

/-- What grows behind its tail has outgrown all that it had outgrown before. -/
theorem concat (h : Outgrows new old)
    (hlink : ChainTail.nextLink? (new.getLast?.map Entry.tail) = some (e.sequence, previousHash)) :
    Outgrows (new ++ [e]) old := by
  obtain ⟨rest, rfl, hrest⟩ := h
  refine ⟨rest ++ [e], List.append_assoc .., ?_⟩
  cases rest with
  | nil =>
    intro d hd
    obtain rfl : e = d := by simpa using hd
    rw [List.append_nil] at hlink
    exact ⟨previousHash, hlink⟩
  | cons d rest => exact hrest

end Outgrows

/-- What is placed at the sequence after the tail goes behind it. -/
theorem place_of_nextLink {es : List Entry} (hasc : Ascending Entry.sequence es) {e : Entry}
    {previousHash : String}
    (hlink : ChainTail.nextLink? (es.getLast?.map Entry.tail) = some (e.sequence, previousHash)) :
    place Entry.sequence e es = es ++ [e] :=
  place_eq_append fun d hd =>
    UInt64.lt_iff_toNat_lt.mpr ((above_of_nextLink hasc hlink).1 d hd)

variable [Store σ] {Valid : σ → Prop} {held : σ → List Entry} {s s' : σ}
  {h : List (Move ledger ι σ)}

/-- What writers share has only grown behind its tail, one move after another. -/
structure Grown (Valid : σ → Prop) (held : σ → List Entry) (h : List (Move ledger ι σ)) (s : σ) :
    Prop where
  /-- The store is in a state that inserts lead to, -/
  valid : Valid s
  /-- and was before every move. -/
  wasValid : ∀ m ∈ h, Valid m.before
  /-- Every move was answered. -/
  answered : ∀ m ∈ h, Truthful m.before m.exchange m.after
  /-- What is held has outgrown what was held before every move. -/
  outgrows : ∀ m ∈ h, Outgrows (held s) (held m.before)

namespace Grown

variable [DecidableEq ι] {i : ι} {event : Event} {e : Entry} {x : Exchange ledger}

/-- An insert that rests on an older tail goes behind the tail that there is, and names its hash. -/
theorem of_sealing (hσ : KeepsOrder σ Valid held) (inv : Grown Valid held h s)
    (hsealing : Sealing event (transcript i h) e) (hins : Store.insert s e = .ok s') :
    held s' = held s ++ [e] ∧
      ChainTail.nextLink? ((held s).getLast?.map Entry.tail) =
        some (e.sequence, e.previousHash) := by
  obtain ⟨tail, sequence, previousHash, before, hl, hlink, rfl⟩ := hsealing
  have htail : ⟨.tail, .ok tail⟩ ∈ transcript i h := by
    rw [hl]
    exact List.mem_cons_of_mem _ List.mem_cons_self
  obtain ⟨m, hm, -, hx⟩ := mem_transcript.mp htail
  have hans := inv.answered m hm
  rw [hx] at hans
  rw [hσ.tail (inv.wasValid m hm) hans.unreliable.tail_eq] at hlink
  obtain ⟨-, hfree, hplace⟩ := hσ.insert inv.valid hins
  -- the sequence after that tail is still free, so the tail is still the same
  have hsame : held s = held m.before := (inv.outgrows m hm).eq_of_free hlink hfree
  rw [← hsame] at hlink
  exact ⟨hplace.trans (place_of_nextLink (hσ.ascending inv.valid) hlink), hlink⟩

/-- One move of somebody who only appends. -/
theorem move (hσ : KeepsOrder σ Valid held) (inv : Grown Valid held h s) {kind : Event → Prop}
    (hask : MayAppendAny kind (transcript i h) x.request) (hans : Truthful s x s') :
    Grown Valid held (⟨i, s, x, s'⟩ :: h) s' := by
  have hall : ∀ m ∈ (⟨i, s, x, s'⟩ :: h : List (Move ledger ι σ)),
      Outgrows (held s) (held m.before) :=
    List.forall_mem_cons.mpr ⟨.refl _, inv.outgrows⟩
  have hvalids : ∀ m ∈ (⟨i, s, x, s'⟩ :: h : List (Move ledger ι σ)), Valid m.before :=
    List.forall_mem_cons.mpr ⟨inv.valid, inv.wasValid⟩
  have hanswered : ∀ m ∈ (⟨i, s, x, s'⟩ :: h : List (Move ledger ι σ)),
      Truthful m.before m.exchange m.after :=
    List.forall_mem_cons.mpr ⟨hans, inv.answered⟩
  rcases hans.state_cases with rfl | ⟨e, rfl, hins⟩
  -- only an insert that is reported as done has changed anything
  · exact ⟨inv.valid, hvalids, hanswered, hall⟩
  · obtain ⟨happend, hlink⟩ := inv.of_sealing hσ hask.2 hins
    refine ⟨(hσ.insert inv.valid hins).1, hvalids, hanswered, ?_⟩
    intro m hm
    rw [happend]
    exact (hall m hm).concat hlink

end Grown

variable [DecidableEq ι] {policy : ι → RetryPolicy} {event : ι → Event}
  {Q : Pool ledger ι σ (Except AuditError Outcome)} {i : ι}

/-- What is shared by those who only append only grows behind its tail. -/
theorem Run.grown {α : Type} {kind : Event → Prop} {P Q : Pool ledger ι σ α}
    (hσ : KeepsOrder σ Valid held) (hP : Valid P.state)
    (happends : ∀ i, Appends kind (P.program i) []) (hrun : Run Truthful P h Q) :
    Grown Valid held h Q.state := by
  refine hrun.invariant happends ?_ ?_
  · exact ⟨hP, fun _ hm => absurd hm List.not_mem_nil, fun _ hm => absurd hm List.not_mem_nil,
      fun _ hm => absurd hm List.not_mem_nil⟩
  · intro h m inv hask hans
    exact inv.move hσ hask hans

/-! ### What a submission comes to -/

/-- No move of a caller has changed the store. -/
def Idle (i : ι) (h : List (Move ledger ι σ)) : Prop :=
  ∀ m ∈ h, m.who = i → m.after = m.before

/-- One move of a caller has put an entry right behind the tail and named its hash; no other move of
that caller has changed the store. -/
def WroteOnly (held : σ → List Entry) (i : ι) (h : List (Move ledger ι σ)) (e : Entry) : Prop :=
  ∃ later m earlier, h = later ++ m :: earlier ∧ m.who = i ∧
    m.exchange = ⟨.insert e, .ok ()⟩ ∧ held m.after = held m.before ++ [e] ∧
    ChainTail.nextLink? ((held m.before).getLast?.map Entry.tail) =
      some (e.sequence, e.previousHash) ∧
    Idle i earlier ∧ Idle i later

/-- A caller to whom no insert was reported as done has changed nothing. -/
theorem idle_of_noneDone (hans : ∀ m ∈ h, Truthful m.before m.exchange m.after)
    (hnone : NoneDone (transcript i h)) : Idle i h := by
  intro m hm hi
  rcases (hans m hm).state_cases with hsame | ⟨e, hx, -⟩
  · exact hsame
  · exact absurd (mem_transcript.mpr ⟨m, hm, hi, hx⟩) (hnone e)

/-- A submission that ends with an entry of its own has written that entry and nothing else. -/
theorem Run.wroteOnly (hσ : KeepsOrder σ Valid held) (hs : Valid s)
    (hrun : Run Truthful (writers s policy event) h Q) {e : Entry}
    (hends : EndsAppend (event i) (transcript i h) (.ok (.appended e))) :
    WroteOnly held i h e := by
  obtain ⟨before, hl, hsealing, hnone⟩ := hends
  obtain ⟨rest, n, mid, rfl, hrest, hn, hnx, hmid⟩ := exists_of_transcript_eq_cons hl
  obtain ⟨between, m, earlier, rfl, hbetween, hm, hmx, rfl⟩ := exists_of_transcript_eq_cons hmid
  have hsplit : rest ++ n :: (between ++ m :: earlier) =
      (rest ++ n :: between) ++ m :: earlier := by simp
  rw [hsplit] at hrun ⊢
  have hanswered := hrun.answered
  obtain ⟨R, hR, -⟩ := hrun.split
  obtain ⟨S, next, hS, hstate, -, hans, -⟩ := hR.last
  have hins : Store.insert m.before e = .ok m.after := by
    rw [hmx] at hans
    exact hans.unreliable.insert_eq
  have happends : ∀ j, Appends (fun _ => True) ((writers s policy event).program j) [] :=
    fun j => submit_appends trivial (policy j) []
  have hgrown : Grown Valid held earlier m.before := hstate ▸ hS.grown hσ hs happends
  obtain ⟨happend, hlink⟩ := hgrown.of_sealing hσ hsealing hins
  refine ⟨_, m, earlier, rfl, hm, hmx, happend, hlink, ?_, ?_⟩
  · exact idle_of_noneDone (fun k hk => hanswered k (by simp [hk])) hnone
  · -- behind the insert there is only a note
    refine idle_of_noneDone (fun k hk => hanswered k (List.mem_append_left _ hk)) ?_
    rw [transcript_append, transcript_cons_of_eq hn, hnx]
    intro d hd
    rcases List.mem_append.mp hd with hd | hd
    · obtain ⟨k, hk, hki, -⟩ := mem_transcript.mp hd
      exact hrest k hk hki
    · rcases List.mem_cons.mp hd with heq | hd
      · simp at heq
      · obtain ⟨k, hk, hki, -⟩ := mem_transcript.mp hd
        exact hbetween k hk hki

/-- What a submission asks while it is told that its caller has cancelled: nothing of the store. -/
def MayStop (l : Transcript ledger) (r : Request) : Prop :=
  r = .cancelled ∨ r = .note .cancelled ∨ ⟨.cancelled, false⟩ ∈ l

/-- How a submission ends whose caller has cancelled. -/
def EndsStopped (l : Transcript ledger) (result : Except AuditError Outcome) : Prop :=
  result = .error .cancelled ∨ ⟨.cancelled, false⟩ ∈ l

/-- A submission whose caller has cancelled beforehand asks nothing of the store. -/
theorem submit_stops (p : RetryPolicy) (event : Event) :
    (submit p event).Obeys MayStop EndsStopped [] := by
  rw [submit, submitFrom]
  refine ⟨.inl rfl, ?_⟩
  rintro (_ | _)
  · exact .of_mem (fun _ _ hx => .inr (.inr hx)) (fun _ _ hx => .inr hx) _ List.mem_cons_self
  · exact ⟨.inr (.inl rfl), fun _ => .inl rfl⟩

/-- What a submission has done to the store when it ends. -/
structure Effect (held : σ → List Entry) (event : ι → Event) (h : List (Move ledger ι σ))
    (Q : Pool ledger ι σ (Except AuditError Outcome)) (i : ι) : Prop where
  /-- With an error: nothing. -/
  failed : ∀ error, Q.program i = .done (.error error) → Idle i h
  /-- With an entry that was stored already: nothing. -/
  known : ∀ e, Q.program i = .done (.ok (.duplicate e)) → Idle i h
  /-- With an entry of its own: it has put this entry, which is the event sealed for the place right
  behind the tail, and nothing else. -/
  appended : ∀ e, Q.program i = .done (.ok (.appended e)) →
    e.event = event i ∧ e.hash = e.recompute ∧ WroteOnly held i h e
  /-- If it was never told that its caller had not cancelled, it has asked nothing of the store, -/
  unasked : ⟨.cancelled, false⟩ ∉ transcript i h →
    ∀ m ∈ h, m.who = i →
      m.exchange.request = .cancelled ∨ m.exchange.request = .note .cancelled
  /-- and it ends with an error that says so. -/
  stopped : ⟨.cancelled, false⟩ ∉ transcript i h →
    ∀ result, Q.program i = .done result → result = .error .cancelled

/-- **A submission has written just what it reports.**  Writers share a store that keeps its
sequences apart, whatever it holds; each of their calls may be answered in any order or fail, and
calls that fail change nothing. -/
theorem submit_effect (hσ : KeepsOrder σ Valid held) (hs : Valid s)
    (hrun : Run Truthful (writers s policy event) h Q) (i : ι) : Effect held event h Q i := by
  have hends : ∀ result, Q.program i = .done result →
      EndsAppend (event i) (transcript i h) result := by
    intro result hdone
    have hobeys := hrun.obeys (fun i => submit_obeys (policy i) (event i)) i
    rwa [hdone] at hobeys
  have hstops : ∀ i, ((writers s policy event).program i).Obeys MayStop EndsStopped [] :=
    fun i => submit_stops (policy i) (event i)
  refine ⟨?_, ?_, ?_, ?_, ?_⟩
  · intro error hdone
    exact idle_of_noneDone hrun.answered (hends _ hdone)
  · intro e hdone
    exact idle_of_noneDone hrun.answered (hends _ hdone).2
  · intro e hdone
    obtain ⟨before, -, hsealing, -⟩ := hends _ hdone
    obtain ⟨_, _, _, _, -, -, rfl⟩ := hsealing
    exact ⟨rfl, rfl, hrun.wroteOnly hσ hs (hends _ hdone)⟩
  · rintro hnever m hm rfl
    obtain ⟨later, earlier, rfl⟩ := List.append_of_mem hm
    rcases hrun.allowed hstops with hask | hask | hgo
    · exact .inl hask
    · exact .inr hask
    · refine absurd ?_ hnever
      rw [transcript_append, transcript_cons_of_eq rfl]
      exact List.mem_append_right _ (List.mem_cons_of_mem _ hgo)
  · intro hnever result hdone
    have hobeys := hrun.obeys hstops i
    rw [hdone] at hobeys
    exact hobeys.resolve_right hnever

/-- Two writers on a store that holds no chain; the second one does not wait for a store that is
unavailable. -/
def patchyWriters : Pool ledger Bool MemoryStore (Except AuditError Outcome) :=
  writers (.ofEntries [.sealed 3 (.bare "stray" "1") "unknown"])
    (fun first => if first then {} else { maxTransientRetries := 0 })
    fun first => .bare (if first then "first" else "second") "1"

/-- The second writer loses its insert to the first one, and when it starts over the store is
unavailable. -/
def patchyTurns : List (Bool × Answer) :=
  List.replicate 4 (false, .serve false) ++ List.replicate 6 (true, .serve false) ++
    List.replicate 5 (false, .serve false) ++
    [(false, .fail (.unavailable "connection lost")), (false, .serve false)]

theorem submit_effect_patchy :
    let h := (patchyWriters.play patchyTurns).1
    let Q := (patchyWriters.play patchyTurns).2
    Run Truthful patchyWriters h Q ∧ (Q.told true).map Outcome.isDuplicate = some false ∧
      Q.failure false = some (.transientStorage "connection lost") ∧
      Q.state.entries.map (fun e => e.event.dedupKey.text) = ["stray", "first"] ∧
      ∀ i, Effect MemoryStore.entries (fun first => .bare (if first then "first" else "second") "1")
        h Q i := by
  intro h Q
  have hrun : Run Truthful patchyWriters h Q := by
    refine patchyWriters.run_play_of patchyTurns ?_
    intro turn hturn r s
    have hkind : ∀ turn ∈ patchyTurns, (∃ c, turn.2 = .serve c) ∨ ∃ e, turn.2 = .fail e := by
      simp [patchyTurns]
    rcases hkind turn hturn with ⟨c, hserve⟩ | ⟨e, hfail⟩
    · rw [hserve]
      exact .inl ⟨c, rfl⟩
    · rw [hfail]
      exact .inr ⟨rfl, e, rfl⟩
  exact ⟨hrun, by decide +kernel, by decide +kernel, by decide +kernel,
    submit_effect MemoryStore.keepsOrder trivial hrun⟩

end AuditChain
