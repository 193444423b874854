import AuditChain.Proofs.Append.Agreement
import AuditChain.Proofs.Append.Counters
import AuditChain.Proofs.Append.Spending

/-!
# The passes of a submission

Whatever a submission is answered, its exchanges fall into passes, and each pass makes one insert at
most and has one fault at most that counts: its first.  The faults of the passes decide how the
submission goes on, and nothing else does.  So the number of passes is bounded, whatever the mixture
and the order of the faults; the submission gives up for want of the store at just the outage that
is one too many, and reports a conflict just when its attempts are spent and a last lookup has found
nothing.

## Main definitions

* `passes`, `passFault?`, `faultsOf` — exchanges pass by pass, and what the passes failed with.
* `InPass` — a pass under way.
* `Ready` — between two passes.
* `Within`, `Explains` — the bounds that exchanges keep to, and what a result tells about them.
* `Bounded` — a submission and its exchanges keep to all this.

## Main results

* `attempt_passes`, `followUp_passes` — one pass, and what comes after it.
* `submit_passes` — **a submission keeps to its bounds, whatever it is answered.**
* `retries_bounded` — the same for submissions among others, together with the counters.
-/

namespace AuditChain

open LedgerProgram (noting)

/-! ### Passes -/

/-- The last thing asked was the tail. -/
def AfterTail (l : Transcript ledger) : Prop :=
  ∃ x ∈ l.head?, x.request = .tail

instance (l : Transcript ledger) : Decidable (AfterTail l) :=
  match l with
  | [] => .isFalse (by simp [AfterTail])
  | x :: _ => decidable_of_iff (x.request = .tail) (by simp [AfterTail])

/-- Exchanges pass by pass, the last one first.  A pass begins with a look at the cancellation; the
only other such look comes right after the tail. -/
def passes : Transcript ledger → List (Transcript ledger)
  | [] => []
  | x :: l =>
    if x.request = .cancelled ∧ ¬AfterTail l then [x] :: passes l
    else match passes l with
      | [] => [[x]]
      | pass :: older => (x :: pass) :: older

/-- What a pass failed with: its first fault. -/
def passFault? (pass : Transcript ledger) : Option StoreError :=
  pass.reverse.findSome? Exchange.fault?

/-- What the passes failed with, the last one first. -/
def faultsOf (l : Transcript ledger) : List StoreError :=
  (passes l).filterMap passFault?

/-- The exchange asks for an insert. -/
def Exchange.isInsert : Exchange ledger → Bool
  | ⟨.insert _, _⟩ => true
  | _ => false

/-- How many inserts a pass asks for. -/
def insertsOf (pass : Transcript ledger) : Nat :=
  pass.countP Exchange.isInsert

/-- Behind the exchanges `l₀` a pass is under way, with its fault so far, with at most so many
exchanges and at most so many inserts. -/
def InPass (l₀ l : Transcript ledger) (fault : Option StoreError) (size inserts : Nat) : Prop :=
  ∃ pass, passes l = pass :: passes l₀ ∧ l = pass ++ l₀ ∧ passFault? pass = fault ∧
    pass.length ≤ size ∧ insertsOf pass ≤ inserts

section InPass

variable {l₀ l : Transcript ledger} {x : Exchange ledger} {fault : Option StoreError}
  {size size' inserts inserts' : Nat}

/-- A look at the cancellation begins a pass. -/
theorem inPass_begin (hfresh : ¬AfterTail l₀) (stop : Bool) :
    InPass l₀ (⟨.cancelled, stop⟩ :: l₀) none 1 0 := by
  refine ⟨[⟨.cancelled, stop⟩], ?_, rfl, rfl, Nat.le_refl _, Nat.le_refl _⟩
  rw [passes, if_pos ⟨rfl, hfresh⟩]

namespace InPass

theorem mono (h : InPass l₀ l fault size inserts) (hsize : size ≤ size')
    (hinserts : inserts ≤ inserts') : InPass l₀ l fault size' inserts' := by
  obtain ⟨pass, hpasses, hl, hfault, hlength, hcount⟩ := h
  exact ⟨pass, hpasses, hl, hfault, Nat.le_trans hlength hsize, Nat.le_trans hcount hinserts⟩

/-- The pass goes on with anything else; only its first fault counts. -/
theorem next (h : InPass l₀ l fault size inserts) (hx : x.request = .cancelled → AfterTail l) :
    InPass l₀ (x :: l) (fault.or x.fault?) (size + 1) (inserts + x.isInsert.toNat) := by
  obtain ⟨pass, hpasses, rfl, rfl, hlength, hcount⟩ := h
  refine ⟨x :: pass, ?_, rfl, ?_, Nat.succ_le_succ hlength, ?_⟩
  · have hgoes : ¬(x.request = .cancelled ∧ ¬AfterTail (pass ++ l₀)) := fun h => h.2 (hx h.1)
    rw [passes, if_neg hgoes, hpasses]
  · have hlast : [x].findSome? Exchange.fault? = x.fault? := by
      rw [List.findSome?_cons]
      cases x.fault? <;> rfl
    rw [passFault?, List.reverse_cons, List.findSome?_append, hlast, passFault?]
  · rw [insertsOf, List.countP_cons]
    cases x.isInsert
    · exact hcount
    · exact Nat.succ_le_succ hcount

theorem faults_eq (h : InPass l₀ l fault size inserts) :
    faultsOf l = fault.toList ++ faultsOf l₀ := by
  obtain ⟨pass, hpasses, -, rfl, -, -⟩ := h
  rw [faultsOf, hpasses, List.filterMap_cons, faultsOf]
  cases passFault? pass <;> rfl

end InPass

end InPass

/-! ### What a submission keeps to -/

/-- The bounds that the exchanges of a submission keep to. -/
structure Within (p : RetryPolicy) (l : Transcript ledger) : Prop where
  /-- There are not too many passes, -/
  passes_le : (passes l).length ≤ 2 * p.attempts + p.transientRetries
  /-- each of which makes one insert at most. -/
  inserts_le : ∀ pass ∈ passes l, insertsOf pass ≤ 1
  /-- There are not too many exchanges: a pass takes seven at most, the wait after it included. -/
  length_le : l.length ≤ 7 * (2 * p.attempts + p.transientRetries)
  /-- At most one outage is not retried. -/
  outages_le : outages (faultsOf l) ≤ p.transientRetries + 1
  /-- No more attempts are spent than there are. -/
  consumed_le : consumed p (faultsOf l) ≤ p.attempts

/-- What a submission may ask with the exchanges `l` behind it. -/
structure MayRetry (p : RetryPolicy) (event : Event) (l : Transcript ledger) (r : Request) :
    Prop where
  /-- The exchanges keep to the bounds, -/
  within : Within p l
  /-- and there is something left to ask. -/
  unfinished : l.length < 7 * (2 * p.attempts + p.transientRetries)
  /-- After the outage that is one too many there are only notes to take. -/
  outage : outages (faultsOf l) = p.transientRetries + 1 → ∃ n, r = .note n
  /-- When the attempts are spent there is only the last lookup to make. -/
  spent : consumed p (faultsOf l) = p.attempts → r = .find event.dedupKey ∨ ∃ n, r = .note n
  /-- Before that, a lookup is the beginning of a pass. -/
  lookup : ∀ key, r = .find key → consumed p (faultsOf l) < p.attempts →
    ∃ before, l = ⟨.cancelled, false⟩ :: before

/-- What a result tells about the exchanges. -/
structure Explains (p : RetryPolicy) (event : Event) (l : Transcript ledger)
    (result : Except AuditError Outcome) : Prop where
  /-- The outage that is one too many is the result. -/
  outage : outages (faultsOf l) = p.transientRetries + 1 → ∃ reason,
    (faultsOf l).head? = some (.unavailable reason) ∧ result = .error (.transientStorage reason)
  /-- An outage is the result only then, or if the last lookup has failed. -/
  transient : ∀ reason, result = .error (.transientStorage reason) →
    outages (faultsOf l) = p.transientRetries + 1 ∧
        (faultsOf l).head? = some (.unavailable reason) ∨
      consumed p (faultsOf l) = p.attempts ∧
        l.head? = some ⟨.find event.dedupKey, .error (.unavailable reason)⟩
  /-- A conflict is the result only if all attempts are spent, and after a last lookup in vain. -/
  conflict : ∀ key n, result = .error (.chainConflict key n) →
    key = event.dedupKey ∧ n = p.attempts ∧ consumed p (faultsOf l) = p.attempts ∧
      ∃ before, l = ⟨.note .givenUp, ()⟩ :: ⟨.find event.dedupKey, .ok none⟩ :: before

/-- While retries are left, a result needs no explanation but one that faults lead to. -/
theorem explains_of_other {p : RetryPolicy} {event : Event} {l : Transcript ledger}
    {result : Except AuditError Outcome} (hfew : outages (faultsOf l) ≤ p.transientRetries)
    (htransient : ∀ reason, result ≠ .error (.transientStorage reason))
    (hconflict : ∀ key n, result ≠ .error (.chainConflict key n)) : Explains p event l result where
  outage := fun hmany => absurd hmany (Nat.ne_of_lt (Nat.lt_succ_of_le hfew))
  transient := fun reason heq => absurd heq (htransient reason)
  conflict := fun key n heq => absurd heq (hconflict key n)

/-- How a submission may end. -/
def EndsRetry (p : RetryPolicy) (event : Event) (l : Transcript ledger) :
    Except Crash (Except AuditError Outcome) → Prop
  | .ok result => Within p l ∧ Explains p event l result
  | .error _ => Overflown l

/-- Between two passes: all passes so far have failed, and the tally counts what they failed
with. -/
structure Ready (p : RetryPolicy) (l : Transcript ledger) (t : Tally) : Prop where
  counts : Counts p (faultsOf l) t
  failed : (passes l).length = (faultsOf l).length
  fits : l.length ≤ 7 * (passes l).length
  inserts : ∀ pass ∈ passes l, insertsOf pass ≤ 1
  fresh : ¬AfterTail l

theorem ready_nil (p : RetryPolicy) : Ready p [] {} where
  counts := counts_nil p
  failed := rfl
  fits := Nat.le_refl _
  inserts := fun _ hpass => absurd hpass List.not_mem_nil
  fresh := by simp [AfterTail]

section Passing

variable {p : RetryPolicy} {event : Event} {t : Tally} {l₀ l : Transcript ledger}
  {fault : Option StoreError} {e : StoreError} {size inserts : Nat}

namespace Ready

/-- A pass under way keeps to the bounds. -/
theorem within (hr : Ready p l₀ t) (h : InPass l₀ l fault size inserts) (hsize : size ≤ 7)
    (hinserts : inserts ≤ 1) : Within p l := by
  have hfaults := h.faults_eq
  obtain ⟨pass, hpasses, rfl, -, hlength, hcount⟩ := h
  -- the passes before this one have all failed, so they are as few as their faults
  have hfew := hr.counts.length_lt
  have hfailed := hr.failed
  have hfits := hr.fits
  have hspent := hr.counts.attempts_lt
  have hout := hr.counts.outages_le
  refine ⟨?_, ?_, ?_, ?_, ?_⟩
  · rw [hpasses, List.length_cons]
    omega
  · rw [hpasses]
    exact List.forall_mem_cons.mpr ⟨Nat.le_trans hcount hinserts, hr.inserts⟩
  · rw [List.length_append]
    omega
  · rw [hfaults]
    cases fault with
    | none => exact Nat.le_succ_of_le hout
    | some e => exact Nat.le_trans (outages_cons_le e _) (Nat.succ_le_succ hout)
  · rw [hfaults]
    cases fault with
    | none => exact Nat.le_of_lt hspent
    | some e => exact Nat.le_trans (consumed_cons_le p e _) hspent

theorem length_lt (hr : Ready p l₀ t) (h : InPass l₀ l fault size inserts) (hsize : size ≤ 6) :
    l.length < 7 * (2 * p.attempts + p.transientRetries) := by
  obtain ⟨pass, -, rfl, -, hlength, -⟩ := h
  have hfew := hr.counts.length_lt
  have hfailed := hr.failed
  have hfits := hr.fits
  rw [List.length_append]
  omega

/-- Before a pass begins. -/
theorem may_begin (hr : Ready p l₀ t) : MayRetry p event l₀ .cancelled := by
  have hfew := hr.counts.length_lt
  have hfailed := hr.failed
  have hfits := hr.fits
  have hspent := hr.counts.attempts_lt
  have hout := hr.counts.outages_le
  refine ⟨⟨?_, hr.inserts, ?_, ?_, ?_⟩, ?_, ?_, ?_, by simp⟩
  all_goals omega

/-- While a pass has no fault, anything may be asked, but a lookup only at its beginning. -/
theorem may_go (hr : Ready p l₀ t) (h : InPass l₀ l none size inserts) (hsize : size ≤ 6)
    (hinserts : inserts ≤ 1) {r : Request}
    (hlookup : ∀ key, r = .find key → ∃ before, l = ⟨.cancelled, false⟩ :: before) :
    MayRetry p event l r := by
  have hfaults : faultsOf l = faultsOf l₀ := h.faults_eq
  refine ⟨hr.within h (Nat.le_succ_of_le hsize) hinserts, hr.length_lt h hsize, ?_, ?_,
    fun key hkey _ => hlookup key hkey⟩
  · have hout := hr.counts.outages_le
    rw [hfaults]
    omega
  · have hspent := hr.counts.attempts_lt
    rw [hfaults]
    omega

/-- While a pass has no fault, the submission may end with anything but what faults lead to. -/
theorem ends (hr : Ready p l₀ t) (h : InPass l₀ l none size inserts) (hsize : size ≤ 7)
    (hinserts : inserts ≤ 1) {result : Except AuditError Outcome}
    (htransient : ∀ reason, result ≠ .error (.transientStorage reason))
    (hconflict : ∀ key n, result ≠ .error (.chainConflict key n)) :
    EndsRetry p event l (.ok result) := by
  have hfaults : faultsOf l = faultsOf l₀ := h.faults_eq
  have hout := hr.counts.outages_le
  rw [← hfaults] at hout
  exact ⟨hr.within h hsize hinserts, explains_of_other hout htransient hconflict⟩

end Ready

/-- How one pass may end. -/
def EndsInPass (l₀ l : Transcript ledger) :
    Except Crash (Except StoreError (Option Outcome)) → Prop
  | .ok (.ok _) => InPass l₀ l none 6 1
  | .ok (.error e) => InPass l₀ l (some e) 5 1
  | .error _ => Overflown l

/-- One pass keeps to the bounds. -/
theorem attempt_passes (hr : Ready p l₀ t) :
    (attempt event).caught.Obeys (MayRetry p event) (EndsInPass l₀)
      (⟨.cancelled, false⟩ :: l₀) := by
  have h := inPass_begin hr.fresh false
  refine ⟨hr.may_go h (by decide) (by decide) (by simp), ?_⟩
  rintro (err | _ | stored)
  · have hfailed : InPass l₀ (⟨.find event.dedupKey, .error err⟩ :: _) (some err) 2 0 :=
      h.next (by simp)
    exact hfailed.mono (by decide) (by decide)
  · have hfind : InPass l₀ (⟨.find event.dedupKey, .ok none⟩ :: _) none 2 0 := h.next (by simp)
    refine ⟨hr.may_go hfind (by decide) (by decide) (by simp), ?_⟩
    rintro (err | tail)
    · have hfailed : InPass l₀ (⟨.tail, .error err⟩ :: _) (some err) 3 0 := hfind.next (by simp)
      exact hfailed.mono (by decide) (by decide)
    · have htail : InPass l₀ (⟨.tail, .ok tail⟩ :: ⟨.find event.dedupKey, .ok none⟩ :: _)
          none 3 0 := hfind.next (by simp)
      cases hlink : ChainTail.nextLink? tail with
      | none =>
        simp only [hlink]
        obtain ⟨last, rfl, hmax⟩ := ChainTail.nextLink?_eq_none_iff.mp hlink
        exact ⟨last, List.mem_cons_self, hmax⟩
      | some link =>
        obtain ⟨sequence, previousHash⟩ := link
        let entry := Entry.sealed sequence event previousHash
        simp only [hlink]
        refine ⟨hr.may_go htail (by decide) (by decide) (by simp), ?_⟩
        rintro (_ | _)
        · have hgo : InPass l₀ (⟨.cancelled, false⟩ :: _) none 4 0 :=
            htail.next fun _ => ⟨_, rfl, rfl⟩
          refine ⟨hr.may_go hgo (by decide) (by decide) (by simp), ?_⟩
          rintro (err | _)
          · exact hgo.next (by simp)
          · have hdone : InPass l₀ (⟨.insert entry, .ok ()⟩ :: _) none 5 1 := hgo.next (by simp)
            refine ⟨hr.may_go hdone (by decide) (by decide) (by simp), fun _ => ?_⟩
            exact hdone.next (by simp)
        · have hstop : InPass l₀ (⟨.cancelled, true⟩ :: _) none 4 0 :=
            htail.next fun _ => ⟨_, rfl, rfl⟩
          exact hstop.mono (by decide) (by decide)
  · have hfound : InPass l₀ (⟨.find event.dedupKey, .ok (some stored)⟩ :: _) none 2 0 :=
      h.next (by simp)
    refine ⟨hr.may_go hfound (by decide) (by decide) (by simp), fun _ => ?_⟩
    have hnoted : InPass l₀ (⟨.note .known, ()⟩ :: _) none 3 0 := hfound.next (by simp)
    exact hnoted.mono (by decide) (by decide)

/-! ### After a failed pass -/

/-- A failed pass, with what comes after its fault, is followed by the next one. -/
theorem Ready.next {t' : Tally} (hr : Ready p l₀ t) (h : InPass l₀ l (some e) 7 1)
    (hfresh : ¬AfterTail l) (hcounts : Counts p (e :: faultsOf l₀) t') : Ready p l t' := by
  have hfaults : faultsOf l = e :: faultsOf l₀ := h.faults_eq
  obtain ⟨pass, hpasses, rfl, -, hlength, hcount⟩ := h
  have hfailed := hr.failed
  have hfits := hr.fits
  refine ⟨hfaults ▸ hcounts, ?_, ?_, ?_, hfresh⟩
  · rw [hpasses, hfaults, List.length_cons, List.length_cons, hfailed]
  · rw [hpasses, List.length_append, List.length_cons]
    omega
  · rw [hpasses]
    exact List.forall_mem_cons.mpr ⟨hcount, hr.inserts⟩

/-- A note may always be taken. -/
theorem Ready.may_note (hr : Ready p l₀ t) (h : InPass l₀ l fault size 1) (hsize : size ≤ 6)
    (n : Note) : MayRetry p event l (.note n) where
  within := hr.within h (Nat.le_succ_of_le hsize) (Nat.le_refl 1)
  unfinished := hr.length_lt h hsize
  outage := fun _ => ⟨n, rfl⟩
  spent := fun _ => .inr ⟨n, rfl⟩
  lookup := by simp

/-- Giving up is explained by the last fault. -/
theorem giveUp_passes {error : AuditError} (hr : Ready p l₀ t) (h : InPass l₀ l (some e) 5 1)
    (htells : (Verdict.giveUp error).Tells p (e :: faultsOf l₀)) :
    (followUp p event (.giveUp error)).caught.Obeys (MayRetry p event) (EndsRetry p event) l := by
  refine ⟨hr.may_note h (by decide) _, fun _ => ?_⟩
  have hnote : InPass l₀ (⟨.note .givenUp, ()⟩ :: l) (some e) 6 1 := h.next (by simp)
  have hfaults : faultsOf (⟨.note .givenUp, ()⟩ :: l) = e :: faultsOf l₀ := hnote.faults_eq
  refine ⟨hr.within hnote (by decide) (by decide), ?_⟩
  obtain ⟨-, ⟨reason, hhead, rfl, hmany⟩ | ⟨⟨reason, rfl⟩, hfew⟩⟩ := htells
  · rw [← hfaults] at hhead hmany
    refine ⟨fun _ => ⟨reason, hhead, rfl⟩, ?_, ?_⟩
    · intro reason' heq
      obtain rfl : reason = reason' := by simpa using heq
      exact .inl ⟨hmany, hhead⟩
    · intro key n heq
      simp at heq
  · rw [← hfaults] at hfew
    exact explains_of_other hfew (by simp) (by simp)

/-- When the attempts are spent, there is one lookup more. -/
theorem lastLookup_passes {n : Nat} (hr : Ready p l₀ t) (h : InPass l₀ l (some e) 5 1)
    (htells : (Verdict.exhausted n).Tells p (e :: faultsOf l₀)) :
    (followUp p event (.exhausted n)).caught.Obeys (MayRetry p event) (EndsRetry p event) l := by
  obtain ⟨rfl, hspent, hfew⟩ := htells
  have hfaults : faultsOf l = e :: faultsOf l₀ := h.faults_eq
  -- the lookup still belongs to the pass, so a fault of its own does not count
  have hmay : MayRetry p event l (.find event.dedupKey) := by
    refine ⟨hr.within h (by decide) (by decide), hr.length_lt h (by decide), ?_, fun _ => .inl rfl,
      fun _ _ hleft => ?_⟩
    · rw [hfaults]
      omega
    · rw [hfaults] at hleft
      omega
  refine ⟨hmay, ?_⟩
  rintro (err | _ | stored)
  · have hlookup : InPass l₀ (⟨.find event.dedupKey, .error err⟩ :: l) (some e) 6 1 :=
      h.next (by simp)
    have hfaults' : faultsOf (⟨.find event.dedupKey, .error err⟩ :: l) = e :: faultsOf l₀ :=
      hlookup.faults_eq
    refine ⟨hr.within hlookup (by decide) (by decide), ?_, ?_, ?_⟩
    · rw [hfaults']
      omega
    · intro reason heq
      obtain rfl : err = .unavailable reason := by
        cases err <;> simp_all [StoreError.toAuditError]
      exact .inr ⟨by rw [hfaults', hspent], rfl⟩
    · intro key n heq
      cases err <;> simp [StoreError.toAuditError] at heq
  · have hlookup : InPass l₀ (⟨.find event.dedupKey, .ok none⟩ :: l) (some e) 6 1 :=
      h.next (by simp)
    refine ⟨hr.may_note hlookup (by decide) _, fun _ => ?_⟩
    have hnote : InPass l₀ (⟨.note .givenUp, ()⟩ :: _) (some e) 7 1 := hlookup.next (by simp)
    have hfaults' : faultsOf (⟨.note .givenUp, ()⟩ :: _) = e :: faultsOf l₀ := hnote.faults_eq
    refine ⟨hr.within hnote (by decide) (by decide), ?_, ?_, ?_⟩
    · rw [hfaults']
      omega
    · intro reason heq
      simp at heq
    · intro key n heq
      obtain ⟨rfl, rfl⟩ : event.dedupKey = key ∧ p.attempts = n := by simpa using heq
      exact ⟨rfl, rfl, by rw [hfaults', hspent], l, rfl⟩
  · have hlookup : InPass l₀ (⟨.find event.dedupKey, .ok (some stored)⟩ :: l) (some e) 6 1 :=
      h.next (by simp)
    refine ⟨hr.may_note hlookup (by decide) _, fun _ => ?_⟩
    have hnote : InPass l₀ (⟨.note .known, ()⟩ :: _) (some e) 7 1 := hlookup.next (by simp)
    have hfaults' : faultsOf (⟨.note .known, ()⟩ :: _) = e :: faultsOf l₀ := hnote.faults_eq
    rw [← hfaults'] at hfew
    exact ⟨hr.within hnote (by decide) (by decide), explains_of_other hfew (by simp) (by simp)⟩

/-- A retry leads to the next pass, unless the wait for it is cut short. -/
theorem retry_passes {t' : Tally} {wait : Option Nat} (hr : Ready p l₀ t)
    (h : InPass l₀ l (some e) 5 1) (htells : (Verdict.retry t' wait).Tells p (e :: faultsOf l₀))
    (hnext : ∀ l', Ready p l' t' →
      (submitFrom p event t').caught.Obeys (MayRetry p event) (EndsRetry p event) l') :
    (followUp p event (.retry t' wait)).caught.Obeys (MayRetry p event) (EndsRetry p event) l := by
  have hcounts : Counts p (e :: faultsOf l₀) t' := htells
  have hnote : InPass l₀ (⟨.note .retrying, ()⟩ :: l) (some e) 6 1 := h.next (by simp)
  cases wait with
  | none =>
    refine ⟨hr.may_note h (by decide) _, fun _ => hnext _ ?_⟩
    exact hr.next (hnote.mono (by decide) (by decide)) (by simp [AfterTail]) hcounts
  | some retry =>
    refine ⟨hr.may_note h (by decide) _, fun _ => ⟨?_, ?_⟩⟩
    · have hfaults : faultsOf (⟨.note .retrying, ()⟩ :: l) = e :: faultsOf l₀ := hnote.faults_eq
      have hfew := hcounts.outages_le
      have hspent := hcounts.attempts_lt
      refine ⟨hr.within hnote (by decide) (by decide), hr.length_lt hnote (by decide), ?_, ?_,
        by simp⟩
      · rw [hfaults]
        omega
      · rw [hfaults]
        omega
    · rintro (_ | _)
      · have hpause : InPass l₀ (⟨.pause (p.backoff retry), false⟩ :: _) (some e) 7 1 :=
          hnote.next (by simp)
        exact hnext _ (hr.next hpause (by simp [AfterTail]) hcounts)
      · have hpause : InPass l₀ (⟨.pause (p.backoff retry), true⟩ :: _) (some e) 7 1 :=
          hnote.next (by simp)
        have hfaults : faultsOf (⟨.pause (p.backoff retry), true⟩ :: _) = e :: faultsOf l₀ :=
          hpause.faults_eq
        have hfew := hcounts.outages_le
        rw [← hfaults] at hfew
        exact ⟨hr.within hpause (by decide) (by decide), explains_of_other hfew (by simp) (by simp)⟩

/-! ### The submission -/

/-- The passes that are left keep to the bounds. -/
theorem submitFrom_passes (hr : Ready p l₀ t) :
    (submitFrom p event t).caught.Obeys (MayRetry p event) (EndsRetry p event) l₀ := by
  -- as in `submitFrom_obeys`, every retry leaves less to spend
  induction hn : t.left p using Nat.strongRecOn generalizing t l₀ with
  | ind n ih =>
    subst hn
    rw [submitFrom_eq]
    refine ⟨hr.may_begin, ?_⟩
    rintro (_ | _)
    · show ((attempt event).bind _).caught.Obeys _ _ _
      rw [Program.caught_bind]
      refine (attempt_passes hr).bind ?_
      rintro l (crash | e | _ | outcome) hend
      · exact hend
      · have hfailed : InPass l₀ l (some e) 5 1 := hend
        have htells := hr.counts.judge e
        show (followUp p event (t.judge p e)).caught.Obeys _ _ _
        cases hjudge : t.judge p e with
        | giveUp error => exact giveUp_passes hr hfailed (hjudge ▸ htells)
        | exhausted n => exact lastLookup_passes hr hfailed (hjudge ▸ htells)
        | retry t' wait =>
          refine retry_passes hr hfailed (hjudge ▸ htells) fun l' hr' => ?_
          exact ih _ (Tally.left_lt_of_judge hjudge) hr' rfl
      · have hclean : InPass l₀ l none 6 1 := hend
        refine ⟨hr.may_go hclean (by decide) (by decide) (by simp), fun _ => ?_⟩
        have hnote : InPass l₀ (⟨.note .cancelled, ()⟩ :: l) none 7 1 := hclean.next (by simp)
        exact hr.ends hnote (by decide) (by decide) (by simp) (by simp)
      · have hclean : InPass l₀ l none 6 1 := hend
        exact hr.ends hclean (by decide) (by decide) (by simp) (by simp)
    · have hstop := inPass_begin hr.fresh true
      refine ⟨hr.may_go hstop (by decide) (by decide) (by simp), fun _ => ?_⟩
      have hnote : InPass l₀ (⟨.note .cancelled, ()⟩ :: _) none 2 0 := hstop.next (by simp)
      exact hr.ends hnote (by decide) (by decide) (by simp) (by simp)

/-- **A submission keeps to its bounds, whatever it is answered.** -/
theorem submit_passes (p : RetryPolicy) (event : Event) :
    (submit p event).caught.Obeys (MayRetry p event) (EndsRetry p event) [] :=
  submitFrom_passes (ready_nil p)

end Passing

/-! ### Submissions among others -/

/-- A submission, as far as it has come with the exchanges `l`, keeps to its bounds. -/
structure Bounded (p : RetryPolicy) (event : Event) (l : Transcript ledger)
    (program : LedgerProgram (Except AuditError Outcome)) : Prop where
  /-- The exchanges keep to the bounds, -/
  within : Within p l
  /-- and so does what is asked next. -/
  asks : ∀ r next, program = .ask r next → MayRetry p event l r
  /-- Nothing has gone wrong with it. -/
  runs : ∀ why, program ≠ .crash why
  /-- A result tells why it is the result. -/
  ends : ∀ result, program = .done result → Explains p event l result
  /-- There is a result when all that may be asked has been asked. -/
  returns : 7 * (2 * p.attempts + p.transientRetries) ≤ l.length →
    ∃ result, program = .done result

/-- What keeps to the bounds on its own is bounded, unless the chain was found at its end. -/
theorem bounded_of_obeys {p : RetryPolicy} {event : Event} {l : Transcript ledger}
    {program : LedgerProgram (Except AuditError Outcome)}
    (h : program.caught.Obeys (MayRetry p event) (EndsRetry p event) l) (hroom : ¬Overflown l) :
    Bounded p event l program := by
  cases program with
  | done result =>
    obtain ⟨hwithin, hexplains⟩ := h
    refine ⟨hwithin, by simp, by simp, ?_, fun _ => ⟨result, rfl⟩⟩
    intro result' heq
    rwa [← Program.done.inj heq]
  | crash why => exact absurd h hroom
  | ask r next =>
    have hmay := h.1
    have hleft := hmay.unfinished
    refine ⟨hmay.within, ?_, by simp, by simp, fun hlong => absurd hlong (Nat.not_le.mpr hleft)⟩
    intro r' next' heq
    obtain ⟨rfl, -⟩ := Program.ask.inj heq
    exact hmay

/-- **Retries are bounded and counted right**, whatever the submissions are answered: there is no
hypothesis on the answers but that the chain is not found at its end.  A submission that counts in
words does the same, and makes no counter pass its greatest value or fall below zero. -/
theorem retries_bounded {ι σ : Type} [DecidableEq ι] {answers : σ → Exchange ledger → σ → Prop}
    {s : σ} {policy : ι → RetryPolicy} {event : ι → Event} {h : List (Move ledger ι σ)}
    {Q : Pool ledger ι σ (Except AuditError Outcome)}
    (hrun : Run answers (writers s policy event) h Q) (i : ι)
    (hattempts : 2 * (policy i).attempts ≤ 4294967295)
    (hretries : (policy i).transientRetries < 4294967295) (hroom : ¬Overflown (transcript i h)) :
    submitCounted (policy i) (event i) =
        (submit (policy i) (event i)).bind (fun result => .done (some result)) ∧
      Bounded (policy i) (event i) (transcript i h) (Q.program i) := by
  have hobeys := hrun.caught.obeys (fun i => submit_passes (policy i) (event i)) i
  exact ⟨submitCounted_eq (event i) hattempts hretries, bounded_of_obeys hobeys hroom⟩

/-- The tail that a request was answered with. -/
def Exchange.tail? : Exchange ledger → Option ChainTail
  | ⟨.tail, .ok t⟩ => t
  | _ => none

theorem Exchange.tail?_eq_some_iff {x : Exchange ledger} {t : ChainTail} :
    x.tail? = some t ↔ x = ⟨.tail, .ok (some t)⟩ := by
  constructor
  · intro hx
    unfold tail? at hx
    split at hx
    · rw [hx]
    · cases hx
  · rintro rfl
    rfl

instance (l : Transcript ledger) : Decidable (Overflown l) :=
  decidable_of_iff (∃ t ∈ l.filterMap Exchange.tail?, t.sequence = maxSequence) <| by
    simp only [List.mem_filterMap, Exchange.tail?_eq_some_iff, exists_eq_right, Overflown]

/-- A writer with one attempt and one retry. -/
def hardPressed : Pool ledger Unit MemoryStore (Except AuditError Outcome) :=
  writers .empty (fun _ => { maxAttempts := 1, maxTransientRetries := 1 })
    fun _ => .bare "first" "1"

/-- An outage, a taken key and a lost sequence, none of which is true. -/
def hardTurns : List (Unit × Answer) :=
  List.replicate 2 ((), .serve false) ++ [((), .fail (.unavailable "connection lost"))] ++
    List.replicate 6 ((), .serve false) ++ [((), .fail (.uniqueViolation .dedupKey))] ++
    List.replicate 5 ((), .serve false) ++ [((), .fail (.uniqueViolation .sequence))] ++
    List.replicate 2 ((), .serve false)

theorem retries_bounded_hardPressed :
    let p : RetryPolicy := { maxAttempts := 1, maxTransientRetries := 1 }
    let l := transcript () (hardPressed.play hardTurns).1
    let Q := (hardPressed.play hardTurns).2
    2 * p.attempts ≤ 4294967295 ∧ p.transientRetries < 4294967295 ∧ ¬Overflown l ∧
      (passes l).length = 3 ∧
      Q.failure () = some (.chainConflict ⟨"first"⟩ 1) ∧
      submitCounted p (.bare "first" "1") =
        (submit p (.bare "first" "1")).bind (fun result => .done (some result)) ∧
      Bounded p (.bare "first" "1") l (Q.program ()) := by
  intro p l Q
  have hroom : ¬Overflown l := by decide +kernel
  have hrun := hardPressed.run_play hardTurns
  have hbounds := retries_bounded hrun () (by decide) (by decide) hroom
  exact ⟨by decide, by decide, hroom, by decide +kernel, by decide +kernel, hbounds⟩

end AuditChain
