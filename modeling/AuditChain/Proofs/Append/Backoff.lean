import AuditChain.Proofs.Append.Counters
import AuditChain.Proofs.Append.Engines
import AuditChain.Proofs.Time.Parts

/-!
# The wait before a retry

The wait is the base, doubled with every retry, and never more than the longest wait.  A machine
reckons it in words: it shifts a word of thirty-two bits, multiplies the base by it, and falls back
to the longest wait where there is no such length of time.  Words and numbers come to the same, and
no operation on the words fails.

The shift has room for thirty-one doublings.  So the wait *stalls* where it would have to be doubled
once more and is still shorter than the longest one; everywhere else it is what the doubling says.

## Main definitions

* `RetryPolicy.backoffParts` — the wait before a retry, in words.
* `RetryPolicy.doubled` — the base doubled with every retry, up to the longest wait.
* `RetryPolicy.Stalls` — the wait has ceased to grow, and is shorter than the longest one.
* `Request.WaitsBy` — what is asked by those who wait as a policy says.

## Main results

* `RetryPolicy.backoffParts_eq` — **words and numbers come to the same wait.**
* `submit_waits` — a submission waits only before retries that a word can number.
* `submit_doubles` — with thirty-two retries at most, all its waits are what the doubling says.
* `backoff_exact` — **the wait is the base doubled with every retry, just where it does not stall**;
  it never exceeds the longest wait, and it never gets shorter.
-/

namespace AuditChain

namespace RetryPolicy

/-! ### The wait in numbers -/

/-- The base doubled with every retry, counted from one, up to the longest wait; in nanoseconds. -/
def doubled (p : RetryPolicy) (retry : Nat) : Nat :=
  min (p.backoffBase.nanos * 2 ^ (retry - 1)) p.backoffMax.nanos

/-- The wait has ceased to grow before it is the longest one. -/
def Stalls (p : RetryPolicy) (retry : Nat) : Prop :=
  32 < retry ∧ 0 < p.backoffBase.nanos ∧ p.backoffBase.nanos * 2 ^ 31 < p.backoffMax.nanos

theorem nanos_backoff (p : RetryPolicy) (retry : Nat) :
    (p.backoff retry).nanos =
      min (p.backoffBase.nanos * 2 ^ min (retry - 1) 31) p.backoffMax.nanos := by
  have hlongest := p.backoffMax.nanos_le
  unfold backoff Duration.scale? Duration.of?
  rw [Nat.pow_eq]
  by_cases hle : p.backoffBase.nanos * 2 ^ min (retry - 1) 31 ≤ maxNanos
  · rw [dif_pos hle]
    dsimp only [Duration.min]
    split
    · rename_i hshort
      exact (Nat.min_eq_left hshort).symm
    · rename_i hlong
      exact (Nat.min_eq_right (Nat.le_of_not_le hlong)).symm
  · -- there is no such length of time, so the longest wait is shorter
    rw [dif_neg hle]
    exact (Nat.min_eq_right (Nat.le_trans hlongest (Nat.le_of_not_le hle))).symm

theorem backoff_le (p : RetryPolicy) (retry : Nat) :
    (p.backoff retry).nanos ≤ p.backoffMax.nanos := by
  rw [nanos_backoff]
  exact Nat.min_le_right _ _

/-- A wait is never shorter than one before. -/
theorem backoff_mono (p : RetryPolicy) {retry later : Nat} (h : retry ≤ later) :
    (p.backoff retry).nanos ≤ (p.backoff later).nanos := by
  have hexponent : min (retry - 1) 31 ≤ min (later - 1) 31 := by omega
  have hmul := Nat.mul_le_mul_left p.backoffBase.nanos
    (Nat.pow_le_pow_right (n := 2) (by decide) hexponent)
  rw [nanos_backoff, nanos_backoff]
  omega

theorem nanos_backoff_of_not_stalls {p : RetryPolicy} {retry : Nat} (h : ¬p.Stalls retry) :
    (p.backoff retry).nanos = p.doubled retry := by
  rw [nanos_backoff, doubled]
  by_cases hearly : retry ≤ 32
  · rw [Nat.min_eq_left (by omega : retry - 1 ≤ 31)]
  · rw [Nat.min_eq_right (by omega : 31 ≤ retry - 1)]
    rcases Nat.eq_zero_or_pos p.backoffBase.nanos with hzero | hpos
    · rw [hzero, Nat.zero_mul, Nat.zero_mul]
    · -- both are cut to the longest wait
      have hlong : p.backoffMax.nanos ≤ p.backoffBase.nanos * 2 ^ 31 :=
        Nat.le_of_not_lt fun hlt => h ⟨Nat.lt_of_not_le hearly, hpos, hlt⟩
      have hmore : p.backoffBase.nanos * 2 ^ 31 ≤ p.backoffBase.nanos * 2 ^ (retry - 1) :=
        Nat.mul_le_mul_left _ (Nat.pow_le_pow_right (by decide) (by omega))
      rw [Nat.min_eq_right hlong, Nat.min_eq_right (Nat.le_trans hlong hmore)]

theorem nanos_backoff_of_stalls {p : RetryPolicy} {retry : Nat} (h : p.Stalls retry) :
    (p.backoff retry).nanos = p.backoffBase.nanos * 2 ^ 31 ∧
      (p.backoff retry).nanos < p.doubled retry := by
  obtain ⟨hlate, hpos, hshort⟩ := h
  have hvalue : (p.backoff retry).nanos = p.backoffBase.nanos * 2 ^ 31 := by
    rw [nanos_backoff, Nat.min_eq_right (by omega : 31 ≤ retry - 1),
      Nat.min_eq_left (Nat.le_of_lt hshort)]
  have hmore : p.backoffBase.nanos * 2 ^ 31 < p.backoffBase.nanos * 2 ^ (retry - 1) :=
    Nat.mul_lt_mul_of_pos_left (Nat.pow_lt_pow_right (by decide) (by omega)) hpos
  rw [hvalue]
  exact ⟨rfl, Nat.lt_min.mpr ⟨hmore, hshort⟩⟩

/-! ### The wait in words -/

/-- A power of two, unless the shift leaves the word. -/
def powerOfTwo? (n : UInt32) : Option UInt32 :=
  if n < 32 then some (1 <<< n) else none

/-- How often the base is doubled before a retry. -/
def doublings (retry : UInt32) : UInt32 :=
  let earlier := (takenBack retry).getD 0
  if earlier < 31 then earlier else 31

/-- The wait before a retry, in words; there is none if an operation on them fails. -/
def backoffParts (p : RetryPolicy) (retry : UInt32) : Option Duration.Parts :=
  (powerOfTwo? (doublings retry)).bind fun factor =>
    (p.backoffBase.parts.scale? factor).map fun
    | some d => d.min p.backoffMax.parts
    | none => p.backoffMax.parts

theorem exists_powerOfTwo {n : UInt32} (h : n.toNat ≤ 31) :
    ∃ factor, powerOfTwo? n = some factor ∧ factor.toNat = 2 ^ n.toNat := by
  have hlt : n.toNat < 32 := Nat.lt_succ_of_le h
  have hpow : 2 ^ n.toNat < 2 ^ 32 := Nat.pow_lt_pow_right (by decide) hlt
  refine ⟨1 <<< n, if_pos (UInt32.lt_iff_toNat_lt.mpr hlt), ?_⟩
  rw [UInt32.toNat_shiftLeft, UInt32.toNat_one, Nat.mod_eq_of_lt hlt, Nat.shiftLeft_eq,
    Nat.one_mul, Nat.mod_eq_of_lt hpow]

theorem toNat_doublings (retry : UInt32) : (doublings retry).toNat = min (retry.toNat - 1) 31 := by
  have hearlier := toNat_takenBack_getD retry
  have hlt : (takenBack retry).getD 0 < 31 ↔ retry.toNat - 1 < 31 := by
    rw [UInt32.lt_iff_toNat_lt, hearlier]
    rfl
  unfold doublings
  dsimp only
  by_cases h : (takenBack retry).getD 0 < 31
  · rw [if_pos h, hearlier, Nat.min_eq_left (Nat.le_of_lt (hlt.mp h))]
  · rw [if_neg h, Nat.min_eq_right (Nat.le_of_not_lt fun hfew => h (hlt.mpr hfew))]
    rfl

/-- **Words and numbers come to the same wait**: the shift stays in its word, the nanoseconds do not
overflow theirs, and where the seconds do, so does the multiple of the base. -/
theorem backoffParts_eq (p : RetryPolicy) (retry : UInt32) :
    p.backoffParts retry = some (p.backoff retry.toNat).parts := by
  have hexponent := toNat_doublings retry
  obtain ⟨factor, hfactor, hvalue⟩ :=
    exists_powerOfTwo (n := doublings retry) (by rw [hexponent]; exact Nat.min_le_right _ _)
  rw [hexponent] at hvalue
  rw [backoffParts, hfactor, Option.bind_some, Duration.Parts.scale?_eq, Duration.whole_parts,
    Option.map_some, hvalue, backoff, Nat.pow_eq]
  cases p.backoffBase.scale? (2 ^ min (retry.toNat - 1) 31) with
  | none => rfl
  | some d =>
    show some (d.parts.min p.backoffMax.parts) = some (d.min p.backoffMax).parts
    rw [Duration.Parts.min_eq, Duration.whole_parts, Duration.whole_parts]

end RetryPolicy

/-! ### The waits of a submission -/

/-- Those who ask this wait as the policy says, before a retry that is among those it allows. -/
def Request.WaitsBy (p : RetryPolicy) : Request → Prop
  | .pause wait => ∃ retry : UInt32, 1 ≤ retry ∧
      (retry.toNat < p.attempts ∨ retry.toNat ≤ p.transientRetries) ∧
      wait = p.backoff retry.toNat
  | _ => True

theorem Tally.lt_of_afterLoss {p : RetryPolicy} {t t' : Tally} {wait wait' : Option Nat}
    (h : t.afterLoss p wait = .retry t' wait') : wait' = wait ∧ t.attempts < p.attempts := by
  unfold afterLoss at h
  split at h
  · cases h
  · rename_i hleft
    exact ⟨(Verdict.retry.inj h).2.symm, Nat.lt_of_not_le hleft⟩

/-- A wait is due only before a retry that the policy allows. -/
theorem Tally.le_of_judge {p : RetryPolicy} {t t' : Tally} {e : StoreError} {retry : Nat}
    (h : t.judge p e = .retry t' (some retry)) :
    1 ≤ retry ∧ (retry < p.attempts ∨ retry ≤ p.transientRetries) := by
  match e with
  | .uniqueViolation .sequence =>
    obtain ⟨hretry, hleft⟩ := lt_of_afterLoss h
    obtain rfl := Option.some.inj hretry
    exact ⟨Nat.succ_pos _, .inl hleft⟩
  | .uniqueViolation .dedupKey => exact absurd (lt_of_afterLoss h).1 nofun
  | .unavailable _ =>
    simp only [judge] at h
    split at h
    · cases h
    · rename_i hleft
      obtain rfl := Option.some.inj (Verdict.retry.inj h).2
      exact ⟨Nat.succ_pos _, .inr (Nat.le_of_not_lt hleft)⟩
  | .corrupt _ _ => cases h
  | .backend _ => cases h

/-- A submission waits as its policy says, and only before retries that a word can number. -/
theorem submit_waits (p : RetryPolicy) (event : Event) :
    (submit p event).Asks (Request.WaitsBy p) := by
  refine submitFrom_asks_of ?_ ?_ event {}
  · intro r hr
    cases r with
    | pause wait => exact hr.elim
    | _ => trivial
  · intro t t' e retry hjudge
    obtain ⟨hpos, hfew⟩ := Tally.le_of_judge hjudge
    have hattempts : p.attempts < UInt32.size :=
      Nat.max_lt.mpr ⟨p.maxAttempts.toNat_lt, by decide⟩
    have hretries : p.transientRetries < UInt32.size := p.maxTransientRetries.toNat_lt
    have hword : (UInt32.ofNat retry).toNat = retry := UInt32.toNat_ofNat_of_lt' (by omega)
    refine ⟨UInt32.ofNat retry, ?_, ?_, ?_⟩
    · rw [UInt32.le_iff_toNat_le, hword]
      exact hpos
    · rw [hword]
      exact hfew
    · rw [hword]

/-- With a budget of at most thirty-two retries of either kind, a submission never stalls. -/
theorem submit_doubles {p : RetryPolicy} (hattempts : p.attempts ≤ 33)
    (hretries : p.transientRetries ≤ 32) (event : Event) :
    (submit p event).Asks fun r : Request => ∀ wait, r = .pause wait →
      ∃ retry : UInt32, 1 ≤ retry ∧ wait.nanos = p.doubled retry.toNat := by
  refine (submit_waits p event).mono ?_
  rintro r hr wait rfl
  obtain ⟨retry, hpos, hfew, rfl⟩ := hr
  have hearly : ¬p.Stalls retry.toNat := fun hstalls => by
    have hlate := hstalls.1
    omega
  exact ⟨retry, hpos, RetryPolicy.nanos_backoff_of_not_stalls hearly⟩

/-! ### The formula -/

/-- **The wait is the base doubled with every retry, up to the longest wait, just where it does not
stall.**  Words come to it without failing; where it stalls it is the base times `2 ^ 31`, which is
too short; and it never exceeds the longest wait and never gets shorter from one retry to a later
one. -/
theorem backoff_exact (p : RetryPolicy) (retry : UInt32) :
    p.backoffParts retry = some (p.backoff retry.toNat).parts ∧
      (¬p.Stalls retry.toNat → (p.backoff retry.toNat).nanos = p.doubled retry.toNat) ∧
      (p.Stalls retry.toNat →
        (p.backoff retry.toNat).nanos = p.backoffBase.nanos * 2 ^ 31 ∧
          (p.backoff retry.toNat).nanos < p.doubled retry.toNat) ∧
      (p.backoff retry.toNat).nanos ≤ p.backoffMax.nanos ∧
      ∀ later : UInt32, retry ≤ later →
        (p.backoff retry.toNat).nanos ≤ (p.backoff later.toNat).nanos :=
  ⟨p.backoffParts_eq retry, RetryPolicy.nanos_backoff_of_not_stalls,
    RetryPolicy.nanos_backoff_of_stalls, p.backoff_le _,
    fun _ hle => p.backoff_mono (UInt32.le_iff_toNat_le.mp hle)⟩

/-- Waits that begin with a nanosecond and may grow to ten seconds. -/
def patient : RetryPolicy where
  backoffBase := ⟨1, by decide⟩
  backoffMax := ⟨10000000000, by decide⟩

/-- They are doubled up to the thirty-second retry, and stall at the next. -/
theorem backoff_exact_patient :
    ¬patient.Stalls 32 ∧ (patient.backoff 32).nanos = patient.doubled 32 ∧
      patient.doubled 32 = 2147483648 ∧
      patient.Stalls 33 ∧ (patient.backoff 33).nanos = 2147483648 ∧
      (patient.backoff 33).nanos < patient.doubled 33 ∧ patient.doubled 33 = 4294967296 := by
  have hgrows : ¬patient.Stalls 32 := fun h => Nat.lt_irrefl 32 h.1
  have hstalls : patient.Stalls 33 := ⟨by decide, by decide, by decide⟩
  obtain ⟨hvalue, hshort⟩ := (backoff_exact patient 33).2.2.1 hstalls
  exact ⟨hgrows, (backoff_exact patient 32).2.1 hgrows, by decide, hstalls, hvalue, hshort,
    by decide⟩

end AuditChain
