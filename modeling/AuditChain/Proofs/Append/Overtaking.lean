import AuditChain.Proofs.Append.NoFork
import AuditChain.Proofs.Append.Spending
import Mathlib.Algebra.BigOperators.Group.Finset.Piecewise
import Mathlib.Algebra.Order.BigOperators.Group.Finset
import Mathlib.Data.Fintype.Card

/-!
# Overtaken writers

A writer that finds its sequence taken has been overtaken: between its tail and its insert another
writer has committed.  Every writer commits once at most, so a writer is overtaken less often than
there are writers; and a key that is taken is found at the next lookup.

## Main definitions

* `Overtaken` — what comes between the tail and the insert of a writer that loses its sequence.
* `commits` — the number of inserts that are done.

## Main results

* `Run.overtaken` — **whoever loses a sequence was overtaken.**
* `Run.commits_le_one`, `Run.commits_lt` — a writer commits once at most.
* `Run.losses_le_commits`, `Run.taken_le_one` — what a writer can lose.
* `Run.not_overflown` — where there is room for all writers, none finds the chain at its end.
-/

namespace AuditChain

open LawfulStore (Valid held)

/-! ### Answers of a store in memory -/

section Answers

variable {m m' : MemoryStore} {x : Exchange ledger}

/-- A store in memory fails only where an insert meets a constraint. -/
theorem Attends.fault (h : Attends m x m') (hm : m.Indexed) {err : StoreError}
    (hx : x.fault? = some err) : ∃ e c, x = ⟨.insert e, .error err⟩ ∧ m.insert e = .error err ∧
      err = .uniqueViolation c := by
  obtain ⟨r, reply⟩ := x
  cases r with
  | insert e =>
    cases hins : Store.insert m e with
    | ok s =>
      simp only [Attends, Store.reply, hins, Prod.mk.injEq] at h
      rw [← h.1] at hx
      cases hx
    | error err' =>
      simp only [Attends, Store.reply, hins, Prod.mk.injEq] at h
      rw [← h.1] at hx ⊢
      obtain rfl : err' = err := Option.some.inj hx
      rcases hm.insert_eq_error hins with ⟨rfl, -⟩ | ⟨rfl, -⟩
      · exact ⟨e, .sequence, rfl, hins, rfl⟩
      · exact ⟨e, .dedupKey, rfl, hins, rfl⟩
  | cancelled => cases hx
  | pause wait => cases hx
  | note n => cases hx
  | _ =>
    -- all reads succeed
    simp only [Attends, Store.reply, Prod.mk.injEq] at h
    rw [← h.1] at hx
    cases hx

/-- Nobody is told that it has cancelled. -/
theorem Attends.not_isStop (h : Attends m x m') : ¬x.IsStop := by
  rintro (rfl | ⟨wait, rfl⟩)
  · simp [Attends, Store.reply] at h
  · simp [Attends, Store.reply] at h

end Answers

/-! ### Overtaken writers -/

section Overtaken

variable {ι : Type} [DecidableEq ι] {i : ι} {e : Entry}

/-- The tail that an insert rests on was read by the same caller, who has asked only whether it has
cancelled since. -/
theorem Sealing.exists_tail {σ : Type} {event : Event} {h : List (Move ledger ι σ)}
    (hs : Sealing event (transcript i h) e) :
    ∃ (mid : List (Move ledger ι σ)) (m : Move ledger ι σ) (earlier : List (Move ledger ι σ))
      (tail : Option ChainTail) (before : Transcript ledger) (previousHash : String),
      h = mid ++ m :: earlier ∧
      (∀ n ∈ mid, n.who = i → n.exchange.request = .cancelled) ∧
      m.who = i ∧ m.exchange = ⟨.tail, .ok tail⟩ ∧
      transcript i earlier = ⟨.find event.dedupKey, .ok none⟩ :: before ∧
      ChainTail.nextLink? tail = some (e.sequence, previousHash) := by
  obtain ⟨tail, sequence, previousHash, before, hl, hlink, rfl⟩ := hs
  obtain ⟨later, c, rest, rfl, hlater, hc, hcx, hrest⟩ := exists_of_transcript_eq_cons hl
  obtain ⟨mid, m, earlier, rfl, hmid, hm, hmx, hearlier⟩ := exists_of_transcript_eq_cons hrest
  refine ⟨later ++ c :: mid, m, earlier, tail, before, previousHash, by simp, ?_, hm, hmx,
    hearlier, hlink⟩
  intro n hn hni
  rcases List.mem_append.mp hn with hn | hn
  · exact absurd hni (hlater n hn)
  · rcases List.mem_cons.mp hn with rfl | hn
    · rw [hcx]
    · exact absurd hni (hmid n hn)

/-- Between the tail `r` that caller `i` has read and the insert of `e`, with the moves `mid`,
another caller has committed at the sequence of `e`. -/
structure Overtaken (i : ι) (e : Entry) (r : Move ledger ι MemoryStore)
    (mid : List (Move ledger ι MemoryStore)) : Prop where
  /-- The tail was read by the caller, -/
  read : r.who = i ∧ ∃ tail, r.exchange = ⟨.tail, .ok tail⟩
  /-- who has asked only whether it has cancelled since. -/
  pending : ∀ n ∈ mid, n.who = i → n.exchange.request = .cancelled
  /-- Another caller has committed. -/
  winner : ∃ n ∈ mid, n.who ≠ i ∧ ∃ d, n.exchange = ⟨.insert d, .ok ()⟩ ∧ d.sequence = e.sequence

variable {m₀ : MemoryStore} {policy : ι → RetryPolicy} {event : ι → Event}
  {h : List (Move ledger ι MemoryStore)}
  {Q : Pool ledger ι MemoryStore (Except AuditError Outcome)}

/-- Whoever makes an insert has sealed its entry. -/
theorem Run.sealing {σ : Type} {s : σ} {answers : σ → Exchange ledger → σ → Prop}
    {h : List (Move ledger ι σ)} {Q : Pool ledger ι σ (Except AuditError Outcome)}
    (hrun : Run answers (writers s policy event) h Q) {next : Except StoreError Unit → _}
    (hask : Q.program i = .ask (.insert e) next) :
    Sealing (event i) (transcript i h) e := by
  have hobeys := hrun.obeys (fun i => submit_obeys (policy i) (event i)) i
  rw [hask] at hobeys
  exact hobeys.1

/-- **Whoever loses a sequence was overtaken.** -/
theorem Run.overtaken (hm₀ : m₀.Indexed) {m : Move ledger ι MemoryStore}
    (hrun : Run Attends (writers m₀ policy event) (m :: h) Q)
    (hx : m.exchange = ⟨.insert e, .error (.uniqueViolation .sequence)⟩) :
    ∃ mid r earlier, h = mid ++ r :: earlier ∧ Overtaken m.who e r mid := by
  obtain ⟨i, s, x, s'⟩ := m
  obtain rfl : x = _ := hx
  obtain ⟨R, next, hR, rfl, hask, hans, -⟩ := hrun.last
  have hindexed : R.state.Indexed := (hR.account_of_attends hm₀).valid
  -- the insert was refused because its sequence is taken
  obtain ⟨d, hd, hdseq⟩ : ∃ d ∈ held R.state, d.sequence = e.sequence := by
    obtain ⟨e', c, heq, hins, -⟩ := Attends.fault hans hindexed rfl
    obtain rfl : e = e' := by simpa using heq
    rcases hindexed.insert_eq_error hins with ⟨-, htaken⟩ | ⟨hkey, -⟩
    · exact htaken
    · cases hkey
  obtain ⟨mid, r, earlier, tail, before, previousHash, rfl, hmid, hr, hrx, -, hlink⟩ :=
    (hR.sealing hask).exists_tail
  obtain ⟨S, hS, hSR⟩ := hR.split
  obtain ⟨-, -, -, -, -, hread, hSstate⟩ := hS.last
  have acc := hSR.account_of_attends (hS.account_of_attends hm₀).valid
  -- when the tail was read the sequence was free
  have hfree : d ∉ held S.state := by
    intro hold
    rw [hrx] at hread
    obtain ⟨htail, hsame⟩ : Store.tail r.before = .ok tail ∧ r.before = r.after := by
      simpa [Attends, Store.reply] using hread
    rw [hSstate, ← hsame] at hold
    rw [← Except.ok.inj htail] at hlink
    have habove := (above_of_nextLink r.before.ascending hlink).1 d hold
    rw [hdseq] at habove
    exact Nat.lt_irrefl _ habove
  rcases acc.origin d hd with hold | ⟨n, hn, hadds⟩
  · exact absurd hold hfree
  · have hnx : n.exchange = ⟨.insert d, .ok ()⟩ :=
      Attends.of_adds (hSR.answered n hn) (acc.wasValid n hn) hadds.1 hadds.2
    refine ⟨mid, r, earlier, rfl, ⟨hr, tail, hrx⟩, hmid, n, hn, ?_, d, hnx, hdseq⟩
    intro hni
    have hcancelled := hmid n hn hni
    rw [hnx] at hcancelled
    cases hcancelled

end Overtaken

/-! ### Commits -/

section Commits

variable {ι σ : Type} [DecidableEq ι] {s : σ} {policy : ι → RetryPolicy} {event : ι → Event}
  {answers : σ → Exchange ledger → σ → Prop} {h : List (Move ledger ι σ)}
  {Q : Pool ledger ι σ (Except AuditError Outcome)} {i : ι}

/-- The exchange is an insert that is done. -/
def Exchange.isCommit : Exchange ledger → Bool
  | ⟨.insert _, .ok _⟩ => true
  | _ => false

/-- The number of inserts that are done. -/
def commits (h : List (Move ledger ι σ)) : ℕ :=
  h.countP fun m => m.exchange.isCommit

theorem Exchange.isCommit_iff {x : Exchange ledger} :
    x.isCommit = true ↔ ∃ e, x = ⟨.insert e, .ok ()⟩ := by
  obtain ⟨r, reply⟩ := x
  cases r with
  | insert e => cases reply <;> simp [isCommit]
  | _ => simp [isCommit]

theorem noneDone_iff {l : Transcript ledger} :
    NoneDone l ↔ l.countP Exchange.isCommit = 0 := by
  rw [List.countP_eq_zero]
  constructor
  · intro hl x hx hcommit
    obtain ⟨e, rfl⟩ := Exchange.isCommit_iff.mp hcommit
    exact hl e hx
  · intro hl e he
    exact hl _ he rfl

/-- Within a run a writer asks only what it may spend. -/
theorem Run.maySpend {m : Move ledger ι σ}
    (hrun : Run answers (writers s policy event) (m :: h) Q) :
    MaySpend (transcript m.who h) m.exchange.request := by
  obtain ⟨R, next, hR, -, hask, -, -⟩ := hrun.caught.last
  have hobeys := hR.obeys (fun i => submit_spends (policy i) (event i)) m.who
  rw [hask] at hobeys
  exact hobeys.1

/-- Every writer commits once at most. -/
theorem Run.commits_le_one (hrun : Run answers (writers s policy event) h Q) (i : ι) :
    (transcript i h).countP Exchange.isCommit ≤ 1 := by
  induction h generalizing Q with
  | nil => exact Nat.zero_le 1
  | cons m h ih =>
    obtain ⟨R, -, hR, -⟩ := hrun.last
    have hle := ih hR
    by_cases hi : m.who = i
    · rw [transcript_cons_of_eq hi]
      cases hcommit : m.exchange.isCommit with
      | false => rwa [List.countP_cons_of_neg (by simp [hcommit])]
      | true =>
        rw [List.countP_cons_of_pos hcommit]
        -- it may still insert, so it had not committed
        obtain ⟨e, hx⟩ := Exchange.isCommit_iff.mp hcommit
        rcases hrun.maySpend with hnone | ⟨n, hn⟩
        · rw [hi, noneDone_iff] at hnone
          omega
        · rw [hx] at hn
          cases hn
    · rwa [transcript_cons_of_ne hi]

/-- The commits are those of all writers. -/
theorem commits_eq_sum [Fintype ι] (h : List (Move ledger ι σ)) :
    commits h = ∑ i, (transcript i h).countP Exchange.isCommit :=
  countP_eq_sum Exchange.isCommit h

/-- While one of the writers has not committed, there are fewer commits than writers. -/
theorem Run.commits_lt [Fintype ι] (hrun : Run answers (writers s policy event) h Q)
    (hi : NoneDone (transcript i h)) : commits h < Fintype.card ι := by
  have hzero := noneDone_iff.mp hi
  have hrest : ∑ j ∈ Finset.univ.erase i, (transcript j h).countP Exchange.isCommit ≤
      (Finset.univ.erase i).card := by
    have hsum := Finset.sum_le_card_nsmul (Finset.univ.erase i)
      (fun j => (transcript j h).countP Exchange.isCommit) 1 fun j _ => hrun.commits_le_one j
    simpa using hsum
  have hpos : 0 < Fintype.card ι := Fintype.card_pos_iff.mpr ⟨i⟩
  rw [Finset.card_erase_of_mem (Finset.mem_univ i), Finset.card_univ] at hrest
  rw [commits_eq_sum, ← Finset.add_sum_erase _ _ (Finset.mem_univ i), hzero]
  omega

end Commits

/-! ### Losses -/

section Losses

variable {ι : Type} [DecidableEq ι] {m₀ : MemoryStore} {policy : ι → RetryPolicy}
  {event : ι → Event} {h : List (Move ledger ι MemoryStore)}
  {Q : Pool ledger ι MemoryStore (Except AuditError Outcome)}

/-- Who only asks whether it has cancelled loses nothing. -/
theorem losses_of_pending {i : ι} {mid : List (Move ledger ι MemoryStore)}
    (hmid : ∀ n ∈ mid, n.who = i → n.exchange.request = .cancelled) (c : UniqueConstraint) :
    losses c (transcript i mid) = 0 := by
  rw [losses, List.countP_eq_zero]
  intro x hx
  obtain ⟨n, hn, hni, rfl⟩ := mem_transcript.mp hx
  have hcancelled := hmid n hn hni
  obtain ⟨_, _, ⟨r, reply⟩, _⟩ := n
  obtain rfl : r = .cancelled := hcancelled
  simp [Exchange.fault?]

/-- **A writer loses no more sequences than there were commits**: between any two of its losses it
was overtaken. -/
theorem Run.losses_le_commits (hm₀ : m₀.Indexed)
    (hrun : Run Attends (writers m₀ policy event) h Q) (i : ι) :
    losses .sequence (transcript i h) ≤ commits h := by
  induction hn : h.length using Nat.strongRecOn generalizing h Q with
  | ind n ih =>
    subst hn
    cases h with
    | nil => exact Nat.zero_le _
    | cons m h =>
      obtain ⟨R, next, hR, hstate, hask, hans, -⟩ := hrun.last
      have hle := ih h.length (by simp) hR rfl
      have hcommits : commits h ≤ commits (m :: h) := (List.sublist_cons_self m h).countP_le
      by_cases hi : m.who = i
      · rw [transcript_cons_of_eq hi]
        by_cases hlost : m.exchange.fault? = some (.uniqueViolation .sequence)
        · have hindexed : m.before.Indexed := hstate ▸ (hR.account_of_attends hm₀).valid
          obtain ⟨e, c, hx, -⟩ := Attends.fault hans hindexed hlost
          obtain ⟨mid, r, earlier, rfl, hover⟩ := hrun.overtaken hm₀ hx
          rw [hi] at hover
          -- up to the tail there were enough commits, and the one that overtook comes on top
          obtain ⟨S, hS, -⟩ := hR.split
          have hshort : (r :: earlier).length < (m :: (mid ++ r :: earlier)).length := by
            simp only [List.length_cons, List.length_append]
            omega
          have hearlier := ih (r :: earlier).length hshort hS rfl
          have hmid : 0 < commits mid := by
            obtain ⟨n, hn, -, d, hnx, -⟩ := hover.winner
            exact List.countP_pos_iff.mpr ⟨n, hn, Exchange.isCommit_iff.mpr ⟨d, hnx⟩⟩
          have hsum : commits (mid ++ r :: earlier) = commits mid + commits (r :: earlier) :=
            List.countP_append
          rw [losses_cons_of_eq hlost, transcript_append, losses, List.countP_append, ← losses,
            ← losses, losses_of_pending hover.pending]
          omega
        · rw [losses_cons_of_ne hlost]
          omega
      · rw [transcript_cons_of_ne hi]
        omega

/-- What a writer inserts is its event. -/
theorem Run.event_of_insert {σ : Type} {s : σ} {answers : σ → Exchange ledger → σ → Prop}
    {h : List (Move ledger ι σ)} {Q : Pool ledger ι σ (Except AuditError Outcome)}
    (hrun : Run answers (writers s policy event) h Q) {m : Move ledger ι σ} (hm : m ∈ h) {e : Entry}
    {reply : Except StoreError Unit} (hx : m.exchange = ⟨.insert e, reply⟩) :
    e.event = event m.who := by
  obtain ⟨later, earlier, rfl⟩ := List.append_of_mem hm
  obtain ⟨R, hR, -⟩ := hrun.split
  obtain ⟨i, s, x, s'⟩ := m
  obtain rfl : x = _ := hx
  obtain ⟨S, next, hS, -, hask, -⟩ := hR.last
  exact (hS.sealing hask).event_eq

/-- Before a lookup in vain, a writer has not found its key taken. -/
theorem Run.not_taken (hm₀ : m₀.Indexed) {f : Move ledger ι MemoryStore}
    (hrun : Run Attends (writers m₀ policy event) (f :: h) Q)
    (hf : f.exchange = ⟨.find (event f.who).dedupKey, .ok none⟩) :
    losses .dedupKey (transcript f.who h) = 0 := by
  obtain ⟨R, next, hR, hstate, -, hans, -⟩ := hrun.last
  have acc := hR.account_of_attends hm₀
  rw [losses, List.countP_eq_zero]
  intro x hx
  rw [decide_eq_true_eq]
  intro htaken
  obtain ⟨n, hn, hni, rfl⟩ := mem_transcript.mp hx
  have hvalid : n.before.Indexed := acc.wasValid n hn
  obtain ⟨e, c, hnx, hins, -⟩ := Attends.fault (hR.answered n hn) hvalid htaken
  -- the entry under the key was held then, and still is when the lookup comes
  obtain ⟨d, hd, hkey⟩ : ∃ d ∈ n.before.entries, d.event.dedupKey = e.event.dedupKey := by
    rcases hvalid.insert_eq_error hins with ⟨hseq, -⟩ | ⟨-, hkey⟩
    · cases hseq
    · exact hkey
  have hheld : d ∈ held f.before := hstate ▸ acc.kept_before hn hd
  have hfind : Store.find f.before (event f.who).dedupKey = .ok none := by
    rw [hf] at hans
    exact hans.unreliable.find_eq
  rw [hR.event_of_insert hn hnx, hni] at hkey
  have hfound := (LawfulStore.find (hstate ▸ acc.valid) hfind d).mpr ⟨hheld, hkey⟩
  cases hfound

/-- A writer meets a taken key once at most: its next lookup finds the entry. -/
theorem Run.taken_le_one (hm₀ : m₀.Indexed)
    (hrun : Run Attends (writers m₀ policy event) h Q) (i : ι) :
    losses .dedupKey (transcript i h) ≤ 1 := by
  induction h generalizing Q with
  | nil => exact Nat.zero_le _
  | cons m h ih =>
    obtain ⟨R, next, hR, hstate, hask, hans, -⟩ := hrun.last
    have hle := ih hR
    by_cases hi : m.who = i
    · rw [transcript_cons_of_eq hi]
      by_cases htaken : m.exchange.fault? = some (.uniqueViolation .dedupKey)
      · have hindexed : m.before.Indexed := hstate ▸ (hR.account_of_attends hm₀).valid
        obtain ⟨e, c, hx, -⟩ := Attends.fault hans hindexed htaken
        obtain ⟨j, s, x, s'⟩ := m
        obtain rfl : x = _ := hx
        obtain rfl : j = i := hi
        -- the insert comes after a lookup in vain, and nothing was lost since
        obtain ⟨mid, r, earlier, tail, before, previousHash, rfl, hmid, rfl, hrx, hearlier, -⟩ :=
          (hR.sealing hask).exists_tail
        obtain ⟨later, f, rest, rfl, -, hf, hfx, rfl⟩ := exists_of_transcript_eq_cons hearlier
        have hsplit : Run Attends (writers m₀ policy event)
            ((mid ++ r :: later) ++ f :: rest) R := by simpa using hR
        obtain ⟨S, hS, -⟩ := hsplit.split
        rw [← hf] at hfx
        have hrest := hS.not_taken hm₀ hfx
        rw [hf] at hrest
        rw [losses_cons_of_eq htaken, transcript_append, transcript_cons_of_eq rfl, hearlier,
          losses, List.countP_append, ← losses, ← losses, losses_of_pending hmid,
          losses_cons_of_ne (by simp [hrx, Exchange.fault?]),
          losses_cons_of_ne (by simp [Exchange.fault?]), hrest]
      · rwa [losses_cons_of_ne htaken]
    · rwa [transcript_cons_of_ne hi]

end Losses

/-! ### Room for all -/

section Room

variable {ι σ : Type} [DecidableEq ι] [Store σ] [LawfulStore σ] {s : σ} {policy : ι → RetryPolicy}
  {event : ι → Event} {h : List (Move ledger ι σ)}
  {Q : Pool ledger ι σ (Except AuditError Outcome)} {bound : ℕ}

/-- With every commit the sequences grow by one at most. -/
theorem Run.sequences_lt (hs : Valid s) (hbound : ∀ d ∈ held s, d.sequence.toNat < bound)
    (hrun : Run Attends (writers s policy event) h Q) :
    ∀ d ∈ held Q.state, d.sequence.toNat < bound + commits h := by
  induction h generalizing Q with
  | nil =>
    cases hrun
    exact hbound
  | cons m h ih =>
    obtain ⟨i, t, x, t'⟩ := m
    obtain ⟨R, next, hR, rfl, hask, hans, rfl⟩ := hrun.last
    have hle : commits h ≤ commits (⟨i, R.state, x, Q.state⟩ :: h) :=
      (List.sublist_cons_self _ h).countP_le
    have hans : Attends R.state x Q.state := hans
    rcases hans.state_cases with hsame | ⟨e, rfl, hins⟩
    · intro d hd
      rw [hsame] at hd
      have hd := ih hR d hd
      omega
    · have acc := hR.account_of_attends hs
      have hcommit : commits (⟨i, R.state, ⟨.insert e, .ok ()⟩, Q.state⟩ :: h) = commits h + 1 :=
        List.countP_cons_of_pos rfl
      rw [(LawfulStore.insert acc.valid hins).2.2, hcommit]
      intro d hd
      rcases mem_of_mem_place hd with rfl | hd
      · -- the entry comes next after the tail of an older state
        obtain ⟨tail, sequence, previousHash, before, hl, hlink, hsealed⟩ := hR.sealing hask
        have htail : ⟨.tail, .ok tail⟩ ∈ transcript i h := by
          rw [hl]
          exact List.mem_cons_of_mem _ List.mem_cons_self
        obtain ⟨m, hm, hvalid, rfl⟩ := acc.tail_of_mem htail
        have hsequence : d.sequence = sequence := by rw [hsealed]; rfl
        rw [hsequence]
        rcases (above_of_nextLink (LawfulStore.ascending hvalid) hlink).2 with hzero | ⟨d, hd, hd'⟩
        · omega
        · have hd := ih hR d (acc.kept_before hm hd)
          omega
      · have hd := ih hR d hd
        omega

/-- Where there is room for all writers, none of them finds the chain at its end. -/
theorem Run.not_overflown [Fintype ι] (hs : Valid s)
    (hbound : ∀ d ∈ held s, d.sequence.toNat < bound)
    (hroom : bound + Fintype.card ι ≤ 18446744073709551616)
    (hrun : Run Attends (writers s policy event) h Q) (i : ι) : ¬Overflown (transcript i h) := by
  rintro ⟨t, ht, hmax⟩
  obtain ⟨m, hm, rfl, hx⟩ := mem_transcript.mp ht
  obtain ⟨later, earlier, rfl⟩ := List.append_of_mem hm
  obtain ⟨R, hR, -⟩ := hrun.split
  have hfew : commits earlier < Fintype.card ι := by
    obtain ⟨S, -, hS, -⟩ := hR.last
    rcases hR.maySpend with hnone | ⟨n, hn⟩
    · exact hS.commits_lt hnone
    · rw [hx] at hn
      cases hn
  obtain ⟨S, next, hS, hstate, -, hans, -⟩ := hR.last
  rw [hx, ← hstate] at hans
  have htail := LawfulStore.tail (hS.account_of_attends hs).valid hans.unreliable.tail_eq
  obtain ⟨d, hd, rfl⟩ := Option.map_eq_some_iff.mp htail.symm
  have hlt := hS.sequences_lt hs hbound d (List.mem_of_getLast? hd)
  have hsequence : d.sequence.toNat = 18446744073709551615 := congrArg UInt64.toNat hmax
  omega

end Room

end AuditChain
