import AuditChain.Proofs.Chain
import AuditChain.Proofs.Interleaving
import AuditChain.Proofs.Store.Window
import AuditChain.Store.Scripted

/-!
# Stores that keep to the contract

What the writers of a chain rely on: a lookup and a tail tell what is held, and an insert that
succeeds adds one entry whose sequence and key were both free.  Nothing is asked of calls that
fail, and any call may; an insert may even be committed and reported as failed.

However many programs share such a store, entries only ever come in.  The *account* of a run says
so: what is held at the end, which insert brought which entry, and in which order.

## Main definitions

* `LawfulStore` — a store with the entries that it holds.
* `Serves`, `Fails`, `Misreports`, `Unreliable` — the ways to answer a request.
* `Attends` — the way that leaves nothing to be desired.
* `Account` — what a run has done to a store.

## Main results

* `Unreliable.state_cases` — an answer leaves the store as it is or inserts.
* `Unreliable.held_subset` — what is held stays held.
* `Run.account` — **every run over a lawful store has its account.**
-/

namespace AuditChain

/-- A store that keeps to the contract between stores and those who write a chain. -/
class LawfulStore (σ : Type) [Store σ] where
  /-- The store is in a state that inserts lead to. -/
  Valid : σ → Prop
  /-- The entries that it holds. -/
  held : σ → List Entry
  /-- They ascend. -/
  ascending {s : σ} : Valid s → Ascending Entry.sequence (held s)
  /-- No two of them share a key. -/
  keys {s : σ} : Valid s → (held s).Pairwise fun a b => a.event.dedupKey ≠ b.event.dedupKey
  /-- A lookup that succeeds tells what is held under a key. -/
  find {s : σ} {key : DedupKey} {found : Option Entry} : Valid s → Store.find s key = .ok found →
    ∀ e, found = some e ↔ e ∈ held s ∧ e.event.dedupKey = key
  /-- A tail that can be read is that of the last entry. -/
  tail {s : σ} {t : Option ChainTail} : Valid s → Store.tail s = .ok t →
    t = (held s).getLast?.map Entry.tail
  /-- An insert that succeeds puts a free entry at its place. -/
  insert {s s' : σ} {e : Entry} : Valid s → Store.insert s e = .ok s' →
    Valid s' ∧ IsFree e (held s) ∧ held s' = place Entry.sequence e (held s)

open LawfulStore (Valid held)

/-! ### Answers -/

section Answers

variable {σ : Type} [Store σ] {s s' : σ} {x : Exchange ledger}

/-- The store answers; whether the caller has cancelled is left open. -/
def Serves (s : σ) (x : Exchange ledger) (s' : σ) : Prop :=
  ∃ cancelled, Store.reply cancelled x.request s = (x.reply, s')

/-- The store answers, and the caller has not cancelled. -/
def Attends (s : σ) (x : Exchange ledger) (s' : σ) : Prop :=
  Store.reply false x.request s = (x.reply, s')

/-- The call fails, and nothing has happened. -/
def Fails (s : σ) (x : Exchange ledger) (s' : σ) : Prop :=
  s' = s ∧ ∃ e, x.reply = Request.failure e x.request

/-- An insert is committed and reported as failed. -/
def Misreports (s : σ) (x : Exchange ledger) (s' : σ) : Prop :=
  ∃ e err, x = ⟨.insert e, .error err⟩ ∧ Store.insert s e = .ok s'

/-- The answers of a store that no one can rely on to succeed. -/
def Unreliable (s : σ) (x : Exchange ledger) (s' : σ) : Prop :=
  Serves s x s' ∨ Fails s x s' ∨ Misreports s x s'

namespace Unreliable

/-- An answer leaves the store as it is, or it is the answer to an insert that the store accepts. -/
theorem state_cases (h : Unreliable s x s') :
    s' = s ∨ ∃ e reply, x = ⟨.insert e, reply⟩ ∧ Store.insert s e = .ok s' := by
  rcases h with ⟨c, hc⟩ | ⟨rfl, _⟩ | ⟨e, err, rfl, hins⟩
  · obtain ⟨r, reply⟩ := x
    cases r with
    | insert e =>
      cases hins : Store.insert s e with
      | ok t =>
        simp only [Store.reply, hins, Prod.mk.injEq] at hc
        obtain ⟨-, rfl⟩ := hc
        exact .inr ⟨e, reply, rfl, hins⟩
      | error err =>
        simp only [Store.reply, hins, Prod.mk.injEq] at hc
        exact .inl hc.2.symm
    | _ =>
      simp only [Store.reply, Prod.mk.injEq] at hc
      exact .inl hc.2.symm
  · exact .inl rfl
  · exact .inr ⟨e, .error err, rfl, hins⟩

/-- A lookup that is answered without an error is answered by the store. -/
theorem find_eq {key : DedupKey} {found : Option Entry}
    (h : Unreliable s ⟨.find key, .ok found⟩ s') : Store.find s key = .ok found := by
  rcases h with ⟨c, hc⟩ | ⟨-, e, he⟩ | ⟨e, err, heq, -⟩
  · simp only [Store.reply, Prod.mk.injEq] at hc
    exact hc.1
  · simp [Request.failure] at he
  · simp at heq

/-- A tail that is answered without an error is answered by the store. -/
theorem tail_eq {t : Option ChainTail} (h : Unreliable s ⟨.tail, .ok t⟩ s') :
    Store.tail s = .ok t := by
  rcases h with ⟨c, hc⟩ | ⟨-, e, he⟩ | ⟨e, err, heq, -⟩
  · simp only [Store.reply, Prod.mk.injEq] at hc
    exact hc.1
  · simp [Request.failure] at he
  · simp at heq

/-- An insert that is reported as done is done. -/
theorem insert_eq {e : Entry} (h : Unreliable s ⟨.insert e, .ok ()⟩ s') :
    Store.insert s e = .ok s' := by
  rcases h with ⟨c, hc⟩ | ⟨-, err, herr⟩ | ⟨d, err, heq, -⟩
  · cases hins : Store.insert s e with
    | ok t =>
      simp only [Store.reply, hins, Prod.mk.injEq] at hc
      rw [hc.2]
    | error err => simp [Store.reply, hins] at hc
  · simp [Request.failure] at herr
  · simp only [Exchange.mk.injEq, Request.insert.injEq] at heq
    obtain ⟨rfl, heq⟩ := heq
    simp at heq

variable [LawfulStore σ]

theorem valid (h : Unreliable s x s') (hs : Valid s) : Valid s' := by
  rcases h.state_cases with rfl | ⟨e, reply, -, hins⟩
  · exact hs
  · exact (LawfulStore.insert hs hins).1

/-- What is held stays held. -/
theorem held_subset (h : Unreliable s x s') (hs : Valid s) : held s ⊆ held s' := by
  rcases h.state_cases with rfl | ⟨e, reply, -, hins⟩
  · exact List.Subset.refl _
  · obtain ⟨-, hfree, hplace⟩ := LawfulStore.insert hs hins
    intro d hd
    rw [hplace]
    exact (mem_place_iff fun y hy => (hfree y hy).1).mpr (.inr hd)

end Unreliable

namespace Attends

theorem unreliable (h : Attends s x s') : Unreliable s x s' :=
  .inl ⟨false, h⟩

/-- An answer leaves the store as it is, or it reports an insert that is done. -/
theorem state_cases (h : Attends s x s') :
    s' = s ∨ ∃ e, x = ⟨.insert e, .ok ()⟩ ∧ Store.insert s e = .ok s' := by
  rcases h.unreliable.state_cases with hsame | ⟨e, reply, rfl, hins⟩
  · exact .inl hsame
  · simp only [Attends, Store.reply, hins, Prod.mk.injEq] at h
    exact .inr ⟨e, by rw [← h.1], hins⟩

/-- An entry that was not held before and is held after was inserted. -/
theorem of_adds [LawfulStore σ] (h : Attends s x s') (hs : Valid s) {e : Entry}
    (hold : e ∉ held s) (hnew : e ∈ held s') : x = ⟨.insert e, .ok ()⟩ := by
  rcases h.state_cases with rfl | ⟨d, rfl, hins⟩
  · exact absurd hnew hold
  · rw [(LawfulStore.insert hs hins).2.2] at hnew
    rcases mem_of_mem_place hnew with rfl | hmem
    · rfl
    · exact absurd hmem hold

end Attends

end Answers

/-! ### The account of a run -/

section Account

variable {σ ι α : Type} [Store σ] [LawfulStore σ]

/-- The move brought an entry into the store. -/
def Move.Adds (m : Move ledger ι σ) (e : Entry) : Prop :=
  e ∉ held m.before ∧ e ∈ held m.after

/-- What the moves `h`, the last one first, have done to a store that was `s₀` and is `s`. -/
structure Account (s₀ : σ) (h : List (Move ledger ι σ)) (s : σ) : Prop where
  /-- The store is in a state that inserts lead to, -/
  valid : Valid s
  /-- and was before every move. -/
  wasValid : ∀ m ∈ h, Valid m.before
  /-- Every move was answered. -/
  answered : ∀ m ∈ h, Unreliable m.before m.exchange m.after
  /-- What was held in the beginning is held, -/
  initial : held s₀ ⊆ held s
  /-- and so is what was held after any move. -/
  kept : ∀ m ∈ h, held m.after ⊆ held s
  /-- What was held after a move was held before every later one. -/
  ordered : h.Pairwise fun later earlier => held earlier.after ⊆ held later.before
  /-- What is held was held in the beginning, or a move brought it. -/
  origin : ∀ e ∈ held s, e ∈ held s₀ ∨ ∃ m ∈ h, m.Adds e

namespace Account

variable {s₀ s s' : σ} {h : List (Move ledger ι σ)}

/-- Nothing has happened. -/
theorem start (hs : Valid s₀) : Account s₀ ([] : List (Move ledger ι σ)) s₀ where
  valid := hs
  wasValid := fun _ hm => absurd hm List.not_mem_nil
  answered := fun _ hm => absurd hm List.not_mem_nil
  initial := List.Subset.refl _
  kept := fun _ hm => absurd hm List.not_mem_nil
  ordered := .nil
  origin := fun _ he => .inl he

/-- One move more. -/
theorem move (acc : Account s₀ h s) (i : ι) {x : Exchange ledger} (hans : Unreliable s x s') :
    Account s₀ (⟨i, s, x, s'⟩ :: h) s' where
  valid := hans.valid acc.valid
  wasValid := by
    intro m hm
    rcases List.mem_cons.mp hm with rfl | hm
    · exact acc.valid
    · exact acc.wasValid m hm
  answered := by
    intro m hm
    rcases List.mem_cons.mp hm with rfl | hm
    · exact hans
    · exact acc.answered m hm
  initial := List.Subset.trans acc.initial (hans.held_subset acc.valid)
  kept := by
    intro m hm
    rcases List.mem_cons.mp hm with rfl | hm
    · exact List.Subset.refl _
    · exact List.Subset.trans (acc.kept m hm) (hans.held_subset acc.valid)
  ordered := List.Pairwise.cons acc.kept acc.ordered
  origin := by
    intro e he
    by_cases hold : e ∈ held s
    · rcases acc.origin e hold with h0 | ⟨m, hm, hadds⟩
      · exact .inl h0
      · exact .inr ⟨m, List.mem_cons_of_mem _ hm, hadds⟩
    · -- what is held only now was brought by this very move
      exact .inr ⟨⟨i, s, x, s'⟩, List.mem_cons_self, hold, he⟩

/-- What was held before a move is held. -/
theorem kept_before (acc : Account s₀ h s) {m : Move ledger ι σ} (hm : m ∈ h) :
    held m.before ⊆ held s :=
  List.Subset.trans ((acc.answered m hm).held_subset (acc.wasValid m hm)) (acc.kept m hm)

/-- What a caller was told to be the tail was the tail then. -/
theorem tail_of_mem (acc : Account s₀ h s) [DecidableEq ι] {i : ι} {t : Option ChainTail}
    (ht : ⟨.tail, .ok t⟩ ∈ transcript i h) :
    ∃ m ∈ h, Valid m.before ∧ t = (held m.before).getLast?.map Entry.tail := by
  obtain ⟨m, hm, -, hx⟩ := mem_transcript.mp ht
  have hans := acc.answered m hm
  rw [hx] at hans
  exact ⟨m, hm, acc.wasValid m hm, LawfulStore.tail (acc.wasValid m hm) hans.tail_eq⟩

/-- What a caller was told to be stored under a key is. -/
theorem held_of_find (acc : Account s₀ h s) [DecidableEq ι] {i : ι} {key : DedupKey} {e : Entry}
    (he : ⟨.find key, .ok (some e)⟩ ∈ transcript i h) : e ∈ held s ∧ e.event.dedupKey = key := by
  obtain ⟨m, hm, -, hx⟩ := mem_transcript.mp he
  have hans := acc.answered m hm
  rw [hx] at hans
  obtain ⟨hheld, hkey⟩ := (LawfulStore.find (acc.wasValid m hm) hans.find_eq e).mp rfl
  exact ⟨acc.kept_before hm hheld, hkey⟩

/-- An insert that was reported as done brought its entry, which was free. -/
theorem of_insert (acc : Account s₀ h s) {m : Move ledger ι σ} (hm : m ∈ h) {e : Entry}
    (hx : m.exchange = ⟨.insert e, .ok ()⟩) :
    IsFree e (held m.before) ∧ e ∈ held m.after := by
  have hans := acc.answered m hm
  rw [hx] at hans
  -- an answer without an error is no misreport, so the store did accept the insert
  obtain ⟨-, hfree, hplace⟩ := LawfulStore.insert (acc.wasValid m hm) hans.insert_eq
  refine ⟨hfree, ?_⟩
  rw [hplace]
  exact (mem_place_iff fun y hy => (hfree y hy).1).mpr (.inl rfl)

/-- Of two moves, one came after the other and found what that had left. -/
theorem subset_or_subset (acc : Account s₀ h s) {m n : Move ledger ι σ} (hm : m ∈ h) (hn : n ∈ h)
    (hne : m ≠ n) : held n.after ⊆ held m.before ∨ held m.after ⊆ held n.before := by
  -- `ordered` knows which move is the later one; as a symmetric relation it holds of any two
  let After (m n : Move ledger ι σ) : Prop := held n.after ⊆ held m.before
  have : Std.Symm fun m n => After m n ∨ After n m := ⟨fun _ _ => Or.symm⟩
  have hall : h.Pairwise fun m n => After m n ∨ After n m := acc.ordered.imp Or.inl
  exact hall.forall hm hn hne

/-- A move that brought an entry is an insert. -/
theorem insert_of_adds (acc : Account s₀ h s) {m : Move ledger ι σ} (hm : m ∈ h) {e : Entry}
    (hadds : m.Adds e) : ∃ d reply, m.exchange = ⟨.insert d, reply⟩ := by
  rcases (acc.answered m hm).state_cases with hsame | ⟨d, reply, hx, -⟩
  · rw [Move.Adds, hsame] at hadds
    exact absurd hadds.2 hadds.1
  · exact ⟨d, reply, hx⟩

/-- No two entries are held under one key. -/
theorem eq_of_key_eq (acc : Account s₀ h s) {d e : Entry} (hd : d ∈ held s) (he : e ∈ held s)
    (hkey : d.event.dedupKey = e.event.dedupKey) : d = e :=
  eq_of_pairwise_ne (LawfulStore.keys acc.valid) hd he hkey

end Account

variable [DecidableEq ι] {P Q : Pool ledger ι σ α} {h : List (Move ledger ι σ)}

/-- **Every run over a lawful store has its account**, whatever the programs are. -/
theorem Run.account (hrun : Run Unreliable P h Q) (hP : Valid P.state) :
    Account P.state h Q.state := by
  induction hrun with
  | start => exact .start hP
  | move _ _ hans ih => exact ih.move _ hans

/-- So has every run in which all requests are attended to. -/
theorem Run.account_of_attends (hrun : Run Attends P h Q) (hP : Valid P.state) :
    Account P.state h Q.state :=
  (hrun.mono fun _ _ _ => Attends.unreliable).account hP

end Account

end AuditChain
