import AuditChain.Proofs.Append.Faults

/-!
# Counters that are machine words

The tally of a submission counts the faults of its failed passes in natural numbers, and counts an
attempt when it is lost.  A loop whose counters are words of thirty-two bits, which counts every
attempt when it begins and takes it back when it is to cost nothing, does the same; and none of its
counters ever passes its greatest value or falls below zero, as long as twice the attempts and the
retries are less than a word can hold.

## Main definitions

* `Counters`, `Counters.judge` — counters that are words, and what follows from a failed pass.
* `submitCounted` — a submission that counts in words.
* `followUp` — how a submission goes on after a failed pass.

## Main results

* `Counters.exists_judge` — words and numbers lead to the same.
* `submitCounted_eq` — **a submission that counts in words is the submission.**
-/

namespace AuditChain

open LedgerProgram (noting)

/-! ### Counting in words -/

/-- One more, unless the word cannot hold it. -/
def counted (n : UInt32) : Option UInt32 :=
  if n.toNat = 4294967295 then none else some (n + 1)

/-- One less, unless there is none. -/
def takenBack (n : UInt32) : Option UInt32 :=
  if n = 0 then none else some (n - 1)

theorem exists_counted {n : UInt32} (h : n.toNat < 4294967295) :
    ∃ m, counted n = some m ∧ m.toNat = n.toNat + 1 := by
  refine ⟨n + 1, if_neg (Nat.ne_of_lt h), ?_⟩
  rw [UInt32.toNat_add, UInt32.toNat_one, Nat.mod_eq_of_lt (by omega)]

theorem toNat_counted {n m : UInt32} (h : counted n = some m) : m.toNat = n.toNat + 1 := by
  unfold counted at h
  split at h
  · cases h
  · rename_i hne
    have hlt := n.toNat_lt
    obtain rfl := Option.some.inj h
    rw [UInt32.toNat_add, UInt32.toNat_one, Nat.mod_eq_of_lt (by omega)]

theorem toNat_takenBack {n m : UInt32} (h : takenBack n = some m) : m.toNat + 1 = n.toNat := by
  unfold takenBack at h
  split at h
  · cases h
  · rename_i hne
    have hpos : n.toNat ≠ 0 := fun hzero => hne (UInt32.toNat_inj.mp hzero)
    obtain rfl := Option.some.inj h
    have hone : (1 : UInt32) ≤ n := UInt32.le_iff_toNat_le.mpr (Nat.one_le_iff_ne_zero.mpr hpos)
    rw [UInt32.toNat_sub_of_le n 1 hone, UInt32.toNat_one]
    omega

theorem exists_takenBack {n : UInt32} (h : 0 < n.toNat) :
    ∃ m, takenBack n = some m ∧ m.toNat + 1 = n.toNat := by
  have hne : n ≠ 0 := by
    rintro rfl
    exact Nat.lt_irrefl 0 h
  exact ⟨n - 1, if_neg hne, toNat_takenBack (if_neg hne)⟩

/-- Where there is none to take back, the count stays at zero. -/
theorem toNat_takenBack_getD (n : UInt32) : ((takenBack n).getD 0).toNat = n.toNat - 1 := by
  rcases Nat.eq_zero_or_pos n.toNat with hzero | hpos
  · obtain rfl : n = 0 := UInt32.toNat_inj.mp hzero
    rfl
  · obtain ⟨m, hm, hvalue⟩ := exists_takenBack hpos
    rw [hm, Option.getD_some]
    omega

/-- How many attempts may race for a sequence, as a word. -/
def RetryPolicy.limit (p : RetryPolicy) : UInt32 :=
  if p.maxAttempts < 1 then 1 else p.maxAttempts

theorem toNat_limit (p : RetryPolicy) : p.limit.toNat = p.attempts := by
  rw [RetryPolicy.limit, RetryPolicy.attempts]
  split
  · rename_i hlt
    rw [UInt32.lt_iff_toNat_lt, UInt32.toNat_one] at hlt
    rw [UInt32.toNat_one, Nat.max_eq_right (Nat.le_of_lt hlt)]
  · rename_i hge
    rw [UInt32.lt_iff_toNat_lt, UInt32.toNat_one, Nat.not_lt] at hge
    exact (Nat.max_eq_left hge).symm

/-- The counters of a submission, as words. -/
structure Counters where
  /-- Attempts that have begun and were not taken back. -/
  attempts : UInt32 := 0
  /-- Times the store was unavailable. -/
  transient : UInt32 := 0
  /-- Times the key was found taken. -/
  collisions : UInt32 := 0

/-- What follows from a failed pass, with counters that are words. -/
inductive Ruling where
  /-- Start over, after the wait of a retry if one is due. -/
  | retry (counters : Counters) (wait : Option UInt32)
  /-- The attempts are spent. -/
  | exhausted (attempts : UInt32)
  /-- Give up with an error. -/
  | giveUp (error : AuditError)

/-- The same, with a tally. -/
def Counters.tally (c : Counters) : Tally :=
  ⟨c.attempts.toNat, c.transient.toNat, c.collisions.toNat⟩

/-- The same, as a verdict. -/
def Ruling.verdict : Ruling → Verdict
  | .retry c wait => .retry c.tally (wait.map UInt32.toNat)
  | .exhausted attempts => .exhausted attempts.toNat
  | .giveUp error => .giveUp error

namespace Counters

/-- What follows from a lost insert. -/
def afterLoss (p : RetryPolicy) (c : Counters) (wait : Option UInt32) : Ruling :=
  if p.limit ≤ c.attempts then .exhausted c.attempts else .retry c wait

/-- What follows from a pass that failed, where the attempt is counted already; nothing does, if a
counter cannot be moved. -/
def judge (p : RetryPolicy) (c : Counters) : StoreError → Option Ruling
  | .uniqueViolation .sequence => some (c.afterLoss p (some c.attempts))
  | .uniqueViolation .dedupKey =>
    (counted c.collisions).bind fun collisions =>
      if collisions ≤ p.limit then
        (takenBack c.attempts).map fun attempts => { c with attempts, collisions }.afterLoss p none
      else some ({ c with collisions }.afterLoss p none)
  | .unavailable reason =>
    (takenBack c.attempts).bind fun attempts =>
      (counted c.transient).map fun transient =>
        if p.maxTransientRetries < transient then .giveUp (.transientStorage reason)
        else .retry { c with attempts, transient } (some transient)
  | e => some (.giveUp (.storage e.message))

/-- How far the counters are from the end. -/
def left (p : RetryPolicy) (c : Counters) : Nat :=
  (p.limit.toNat - c.attempts.toNat) + (4294967296 - c.collisions.toNat) +
    (4294967296 - c.transient.toNat)

/-- Every retry brings the counters nearer to the end. -/
theorem left_lt_of_judge {p : RetryPolicy} {c c' : Counters} {attempts : UInt32} {e : StoreError}
    {wait : Option UInt32} (hattempts : counted c.attempts = some attempts)
    (h : judge p { c with attempts } e = some (.retry c' wait)) : c'.left p < c.left p := by
  have hcount := toNat_counted hattempts
  have hafter : ∀ {d d' : Counters} {w w' : Option UInt32},
      d.afterLoss p w = .retry d' w' → d' = d ∧ d.attempts.toNat < p.limit.toNat := by
    intro d d' w w' hd
    unfold afterLoss at hd
    split at hd
    · cases hd
    · rename_i hlt
      rw [UInt32.le_iff_toNat_le, Nat.not_le] at hlt
      obtain ⟨rfl, -⟩ := Ruling.retry.inj hd
      exact ⟨rfl, hlt⟩
  match e with
  | .uniqueViolation .sequence =>
    obtain ⟨rfl, hlt⟩ := hafter (Option.some.inj h)
    dsimp only [left] at hlt ⊢
    omega
  | .uniqueViolation .dedupKey =>
    obtain ⟨collisions, hcollisions, h⟩ := Option.bind_eq_some_iff.mp h
    have hmore := toNat_counted hcollisions
    have hbound := collisions.toNat_lt
    dsimp only at hmore h
    split at h
    · obtain ⟨back, hback, h⟩ := Option.map_eq_some_iff.mp h
      have hless := toNat_takenBack hback
      obtain ⟨rfl, hlt⟩ := hafter h
      dsimp only [left] at hless hlt ⊢
      omega
    · obtain ⟨rfl, hlt⟩ := hafter (Option.some.inj h)
      dsimp only [left] at hlt ⊢
      omega
  | .unavailable reason =>
    obtain ⟨back, hback, h⟩ := Option.bind_eq_some_iff.mp h
    obtain ⟨transient, htransient, h⟩ := Option.map_eq_some_iff.mp h
    have hless := toNat_takenBack hback
    have hmore := toNat_counted htransient
    have hbound := transient.toNat_lt
    split at h
    · cases h
    · obtain ⟨rfl, -⟩ := Ruling.retry.inj h
      dsimp only [left] at hless hmore ⊢
      omega
  | .corrupt _ _ => cases h
  | .backend _ => cases h

end Counters

/-- Passes with counters that are words.  There is no result if a counter cannot be moved. -/
def countedFrom (p : RetryPolicy) (event : Event) (c : Counters) :
    LedgerProgram (Option (Except AuditError Outcome)) :=
  .ask .cancelled fun stop =>
    if stop then noting .cancelled (.done (some (.error .cancelled)))
    else match _hcounted : counted c.attempts with
      | none => .done none
      | some attempts => (attempt event).bind fun
        | .ok (some outcome) => .done (some (.ok outcome))
        | .ok none => noting .cancelled (.done (some (.error .cancelled)))
        | .error e =>
          match _hjudge : Counters.judge p { c with attempts } e with
          | none => .done none
          | some (.giveUp error) => noting .givenUp (.done (some (.error error)))
          | some (.exhausted attempts) =>
            (lastLookup event attempts.toNat).bind fun result => .done (some result)
          | some (.retry c' none) => noting .retrying (countedFrom p event c')
          | some (.retry c' (some retry)) =>
            noting .retrying (.ask (.pause (p.backoff retry.toNat)) fun stop =>
              if stop then .done (some (.error .cancelled)) else countedFrom p event c')
termination_by c.left p
decreasing_by all_goals exact Counters.left_lt_of_judge _hcounted _hjudge

/-- A submission with counters that are words. -/
def submitCounted (p : RetryPolicy) (event : Event) :
    LedgerProgram (Option (Except AuditError Outcome)) :=
  countedFrom p event {}

/-! ### Words and numbers -/

/-- How a submission goes on after a failed pass. -/
def followUp (p : RetryPolicy) (event : Event) :
    Verdict → LedgerProgram (Except AuditError Outcome)
  | .giveUp error => noting .givenUp (.done (.error error))
  | .exhausted attempts => lastLookup event attempts
  | .retry t none => noting .retrying (submitFrom p event t)
  | .retry t (some retry) =>
    noting .retrying (.ask (.pause (p.backoff retry)) fun stop =>
      if stop then .done (.error .cancelled) else submitFrom p event t)

/-- The same with counters that are words. -/
def countedFollowUp (p : RetryPolicy) (event : Event) :
    Option Ruling → LedgerProgram (Option (Except AuditError Outcome))
  | none => .done none
  | some (.giveUp error) => noting .givenUp (.done (some (.error error)))
  | some (.exhausted attempts) =>
    (lastLookup event attempts.toNat).bind fun result => .done (some result)
  | some (.retry c none) => noting .retrying (countedFrom p event c)
  | some (.retry c (some retry)) =>
    noting .retrying (.ask (.pause (p.backoff retry.toNat)) fun stop =>
      if stop then .done (some (.error .cancelled)) else countedFrom p event c)

section Words

variable {p : RetryPolicy} {event : Event} {faults : List StoreError} {c : Counters}

theorem submitFrom_eq (p : RetryPolicy) (event : Event) (t : Tally) :
    submitFrom p event t = .ask .cancelled fun stop =>
      if stop then noting .cancelled (.done (.error .cancelled))
      else (attempt event).bind fun
        | .ok (some outcome) => .done (.ok outcome)
        | .ok none => noting .cancelled (.done (.error .cancelled))
        | .error e => followUp p event (t.judge p e) := by
  rw [submitFrom]
  refine congrArg (Program.ask _) (funext fun stop => ?_)
  cases stop with
  | true => rfl
  | false =>
    refine congrArg (attempt event).bind (funext fun result => ?_)
    match result with
    | .ok (some outcome) => rfl
    | .ok none => rfl
    | .error e =>
      dsimp only
      split
      all_goals
        rename_i hjudge
        rw [hjudge]
        rfl

theorem countedFrom_eq (p : RetryPolicy) (event : Event) {attempts : UInt32}
    (hattempts : counted c.attempts = some attempts) :
    countedFrom p event c = .ask .cancelled fun stop =>
      if stop then noting .cancelled (.done (some (.error .cancelled)))
      else (attempt event).bind fun
        | .ok (some outcome) => .done (some (.ok outcome))
        | .ok none => noting .cancelled (.done (some (.error .cancelled)))
        | .error e => countedFollowUp p event (Counters.judge p { c with attempts } e) := by
  rw [countedFrom]
  refine congrArg (Program.ask _) (funext fun stop => ?_)
  cases stop with
  | true => rfl
  | false =>
    simp only [Bool.false_eq_true, if_false]
    split
    · rename_i hnone
      rw [hattempts] at hnone
      cases hnone
    · rename_i a ha
      obtain rfl := Option.some.inj (hattempts.symm.trans ha)
      refine congrArg (attempt event).bind (funext fun result => ?_)
      match result with
      | .ok (some outcome) => rfl
      | .ok none => rfl
      | .error e =>
        dsimp only
        split
        all_goals
          rename_i hjudge
          rw [hjudge]
          rfl

theorem Counters.afterLoss_verdict (p : RetryPolicy) (c : Counters) (wait : Option UInt32) :
    (c.afterLoss p wait).verdict = c.tally.afterLoss p (wait.map UInt32.toNat) := by
  have hspent : p.limit ≤ c.attempts ↔ p.attempts ≤ c.tally.attempts := by
    rw [UInt32.le_iff_toNat_le, toNat_limit]
    rfl
  unfold Counters.afterLoss Tally.afterLoss
  by_cases h : p.limit ≤ c.attempts
  · rw [if_pos h, if_pos (hspent.mp h)]
    rfl
  · rw [if_neg h, if_neg (fun hle => h (hspent.mpr hle))]
    rfl

/-- Where there is room for the counters, words and numbers lead to the same. -/
theorem Counters.exists_judge (hattempts : 2 * p.attempts ≤ 4294967295)
    (hretries : p.transientRetries < 4294967295) (h : Counts p faults c.tally) {attempts : UInt32}
    (hcounted : counted c.attempts = some attempts) (e : StoreError) :
    ∃ ruling, judge p { c with attempts } e = some ruling ∧
      ruling.verdict = c.tally.judge p e := by
  have hcount := toNat_counted hcounted
  have hspent : c.attempts.toNat = consumed p faults := h.attempts
  have hkeys : c.collisions.toNat = lost .dedupKey faults := h.collisions
  have houtages : c.transient.toNat = outages faults := h.transient
  have hlt := h.attempts_lt
  have hle := h.outages_le
  unfold consumed at hspent hlt
  match e with
  | .uniqueViolation .sequence =>
    refine ⟨_, rfl, ?_⟩
    rw [afterLoss_verdict, Tally.judge]
    simp only [tally, hcount, Option.map_some]
  | .uniqueViolation .dedupKey =>
    obtain ⟨collisions, hcollisions, hmore⟩ :=
      exists_counted (n := c.collisions) (by omega)
    have hwaived : collisions ≤ p.limit ↔ c.collisions.toNat + 1 ≤ p.attempts := by
      rw [UInt32.le_iff_toNat_le, hmore, toNat_limit]
    by_cases hfew : collisions ≤ p.limit
    · -- the attempt that was counted when the pass began is taken back
      obtain ⟨back, hback, hless⟩ := exists_takenBack (n := attempts) (by omega)
      have hsame : back.toNat = c.attempts.toNat := by omega
      refine ⟨{ c with attempts := back, collisions }.afterLoss p none, ?_, ?_⟩
      · simp only [judge, hcollisions, Option.bind_some, if_pos hfew, hback, Option.map_some]
      · rw [afterLoss_verdict, Tally.judge]
        simp only [tally, hmore, hsame, Option.map_none]
        exact congrArg (Tally.afterLoss p · none) (if_pos (hwaived.mp hfew)).symm
    · refine ⟨{ c with attempts, collisions }.afterLoss p none, ?_, ?_⟩
      · simp only [judge, hcollisions, Option.bind_some, if_neg hfew]
      · have hmany : ¬c.collisions.toNat + 1 ≤ p.attempts := fun hle => hfew (hwaived.mpr hle)
        rw [afterLoss_verdict, Tally.judge]
        simp only [tally, hmore, hcount, Option.map_none]
        exact congrArg (Tally.afterLoss p · none) (if_neg hmany).symm
  | .unavailable reason =>
    obtain ⟨back, hback, hless⟩ := exists_takenBack (n := attempts) (by omega)
    obtain ⟨transient, htransient, hmore⟩ := exists_counted (n := c.transient) (by omega)
    have hsame : back.toNat = c.attempts.toNat := by omega
    have hgivesUp : p.maxTransientRetries < transient ↔
        p.transientRetries < c.transient.toNat + 1 := by
      rw [UInt32.lt_iff_toNat_lt, hmore]
      rfl
    by_cases hmany : p.maxTransientRetries < transient
    · refine ⟨.giveUp (.transientStorage reason), ?_, ?_⟩
      · simp only [judge, hback, Option.bind_some, htransient, Option.map_some, if_pos hmany]
      · rw [Tally.judge]
        simp only [Ruling.verdict, tally]
        exact (if_pos (hgivesUp.mp hmany)).symm
    · have hfew : ¬p.transientRetries < c.transient.toNat + 1 := fun h => hmany (hgivesUp.mpr h)
      refine ⟨.retry { c with attempts := back, transient } (some transient), ?_, ?_⟩
      · simp only [judge, hback, Option.bind_some, htransient, Option.map_some, if_neg hmany]
      · rw [Tally.judge]
        simp only [Ruling.verdict, tally, hsame, hmore, Option.map_some]
        exact (if_neg hfew).symm
  | .corrupt _ _ => exact ⟨_, rfl, rfl⟩
  | .backend _ => exact ⟨_, rfl, rfl⟩

/-- Where there is room for the counters, passes that count in words do what the submission does. -/
theorem countedFrom_eq_submitFrom (hattempts : 2 * p.attempts ≤ 4294967295)
    (hretries : p.transientRetries < 4294967295) (h : Counts p faults c.tally) :
    countedFrom p event c =
      (submitFrom p event c.tally).bind fun result => .done (some result) := by
  -- every retry brings the words nearer to the end, and the tally with them
  induction hn : c.left p using Nat.strongRecOn generalizing c faults with
  | ind n ih =>
    subst hn
    have hspent : c.attempts.toNat = consumed p faults := h.attempts
    have hlt := h.attempts_lt
    obtain ⟨attempts, hcounted, -⟩ := exists_counted (n := c.attempts) (by omega)
    rw [countedFrom_eq p event hcounted, submitFrom_eq]
    refine congrArg (Program.ask _) (funext fun stop => ?_)
    cases stop with
    | true => rfl
    | false =>
      refine Eq.trans ?_ (Program.bind_assoc (attempt event) _ _).symm
      refine congrArg (attempt event).bind (funext fun result => ?_)
      match result with
      | .ok (some outcome) => rfl
      | .ok none => rfl
      | .error e =>
        obtain ⟨ruling, hruling, hverdict⟩ :=
          Counters.exists_judge hattempts hretries h hcounted e
        have htells := h.judge e
        rw [← hverdict] at htells
        show countedFollowUp p event _ = (followUp p event _).bind _
        rw [hruling, ← hverdict]
        cases ruling with
        | giveUp error => rfl
        | exhausted n => rfl
        | retry c' wait =>
          have hleft := Counters.left_lt_of_judge hcounted hruling
          have hrest := ih _ hleft htells rfl
          cases wait with
          | none => exact congrArg (noting .retrying) hrest
          | some retry =>
            refine congrArg (noting .retrying) (congrArg (Program.ask _) (funext fun stop => ?_))
            cases stop with
            | true => rfl
            | false => exact hrest

/-- **A submission that counts in words is the submission**: where twice the attempts and the
retries fit in a word, no counter ever passes its greatest value or falls below zero. -/
theorem submitCounted_eq (event : Event) (hattempts : 2 * p.attempts ≤ 4294967295)
    (hretries : p.transientRetries < 4294967295) :
    submitCounted p event = (submit p event).bind fun result => .done (some result) :=
  countedFrom_eq_submitFrom hattempts hretries (counts_nil p)

end Words

end AuditChain
