import AuditChain.Retry

/-!
# Lengths of time in two words

A length of time is a number of nanoseconds.  A machine keeps it in two words, the whole seconds
apart from the nanoseconds past them, and multiplies it part by part: the nanoseconds first, whose
whole seconds are carried over.  Where the seconds are too many there is no product; the nanoseconds
alone are never too many for their word.

## Main definitions

* `product?`, `sum?` — words that are multiplied and added, unless they overflow.
* `Duration.Parts`, `Duration.parts` — a length of time in two words.
* `Duration.Parts.scale?`, `Duration.Parts.min` — multiples and the shorter one, part by part.

## Main results

* `Duration.parts_whole`, `Duration.whole_parts` — the parts say no more and no less.
* `Duration.Parts.scale?_eq` — **parts are multiplied as the whole is**, and no word overflows
  unnoticed.
* `Duration.Parts.min_eq` — parts are compared as the whole is.
-/

namespace AuditChain

/-! ### Words that may overflow -/

/-- The product, unless it is too great for a word. -/
def product? (a b : UInt64) : Option UInt64 :=
  if a.toNat * b.toNat < 18446744073709551616 then some (a * b) else none

/-- The sum, unless it is too great for a word. -/
def sum? (a b : UInt64) : Option UInt64 :=
  if a.toNat + b.toNat < 18446744073709551616 then some (a + b) else none

theorem product?_eq_some_iff {a b c : UInt64} :
    product? a b = some c ↔ a.toNat * b.toNat = c.toNat := by
  unfold product?
  split
  · rename_i hlt
    rw [Option.some.injEq, ← UInt64.toNat_inj, UInt64.toNat_mul, Nat.mod_eq_of_lt hlt]
  · rename_i hge
    have hc := c.toNat_lt
    exact iff_of_false nofun (by omega)

theorem sum?_eq_some_iff {a b c : UInt64} : sum? a b = some c ↔ a.toNat + b.toNat = c.toNat := by
  unfold sum?
  split
  · rename_i hlt
    rw [Option.some.injEq, ← UInt64.toNat_inj, UInt64.toNat_add, Nat.mod_eq_of_lt hlt]
  · rename_i hge
    have hc := c.toNat_lt
    exact iff_of_false nofun (by omega)

theorem exists_product {a b : UInt64} (h : a.toNat * b.toNat < 18446744073709551616) :
    ∃ c, product? a b = some c ∧ c.toNat = a.toNat * b.toNat :=
  ⟨a * b, if_pos h, (product?_eq_some_iff.mp (if_pos h)).symm⟩

/-! ### Parts and wholes -/

namespace Duration

/-- A length of time in two words. -/
@[ext] structure Parts where
  /-- The whole seconds. -/
  seconds : UInt64
  /-- The nanoseconds past them. -/
  subsecond : UInt32
  /-- They make no further second. -/
  subsecond_lt : subsecond.toNat < 1000000000
  deriving DecidableEq, Repr

theorem subsecond_lt (d : Duration) : d.subsecond < 1000000000 :=
  Nat.mod_lt _ (by decide)

theorem seconds_lt (d : Duration) : d.seconds < UInt64.size := by
  have hle := d.nanos_le
  unfold maxNanos at hle
  unfold seconds UInt64.size
  omega

theorem toNat_subsecond (d : Duration) : (UInt32.ofNat d.subsecond).toNat = d.subsecond :=
  UInt32.toNat_ofNat_of_lt' (Nat.lt_trans d.subsecond_lt (by decide))

/-- The parts of a length of time. -/
def parts (d : Duration) : Parts where
  seconds := UInt64.ofNat d.seconds
  subsecond := UInt32.ofNat d.subsecond
  subsecond_lt := by
    rw [toNat_subsecond]
    exact d.subsecond_lt

/-- The length of time that has these parts. -/
def Parts.whole (d : Parts) : Duration where
  nanos := d.seconds.toNat * 1000000000 + d.subsecond.toNat
  nanos_le := by
    have hseconds := d.seconds.toNat_lt
    have hsubsecond := d.subsecond_lt
    unfold maxNanos
    omega

theorem Parts.nanos_whole (d : Parts) :
    d.whole.nanos = d.seconds.toNat * 1000000000 + d.subsecond.toNat := rfl

@[simp] theorem whole_parts (d : Duration) : d.parts.whole = d := by
  refine Duration.ext ?_
  show (UInt64.ofNat d.seconds).toNat * 1000000000 + (UInt32.ofNat d.subsecond).toNat = d.nanos
  rw [toNat_subsecond, UInt64.toNat_ofNat_of_lt' d.seconds_lt]
  exact Nat.div_add_mod' d.nanos 1000000000

/-- Parts that make the same whole are the same. -/
theorem Parts.eq_of_whole {a b : Parts} (h : a.whole = b.whole) : a = b := by
  have hnanos := congrArg Duration.nanos h
  rw [nanos_whole, nanos_whole] at hnanos
  have ha := a.subsecond_lt
  have hb := b.subsecond_lt
  have hseconds : a.seconds.toNat = b.seconds.toNat := by omega
  have hsubsecond : a.subsecond.toNat = b.subsecond.toNat := by omega
  exact Parts.ext (UInt64.toNat_inj.mp hseconds) (UInt32.toNat_inj.mp hsubsecond)

@[simp] theorem parts_whole (d : Parts) : d.whole.parts = d :=
  Parts.eq_of_whole (whole_parts d.whole)

theorem map_parts_of?_eq_some_iff {nanos : Nat} {d : Parts} :
    (of? nanos).map parts = some d ↔ d.whole.nanos = nanos := by
  unfold of?
  split
  · rename_i hle
    rw [Option.map_some, Option.some.injEq]
    constructor
    · rintro rfl
      rw [whole_parts]
    · rintro rfl
      exact parts_whole d
  · rename_i hgt
    have hle := d.whole.nanos_le
    exact iff_of_false (Option.some_ne_none d).symm fun heq => hgt (heq ▸ hle)

/-! ### Multiples and the shorter one -/

namespace Parts

/-- So many seconds and nanoseconds, whose whole seconds are carried over; there is no such length
of time if the seconds are too many then. -/
def carried? (seconds total : UInt64) : Option Parts :=
  (sum? seconds (total / 1000000000)).map fun seconds =>
    { seconds
      subsecond := (total % 1000000000).toUInt32
      subsecond_lt := by
        rw [UInt64.toNat_toUInt32, UInt64.toNat_mod]
        exact Nat.lt_of_le_of_lt (Nat.mod_le _ _) (Nat.mod_lt _ (by decide)) }

/-- A multiple of a length of time, part by part; there is none if the seconds are too many.
Nothing at all comes of it if the nanoseconds overflow. -/
def scale? (d : Parts) (factor : UInt32) : Option (Option Parts) :=
  (product? d.subsecond.toUInt64 factor.toUInt64).map fun total =>
    (product? d.seconds factor.toUInt64).bind fun seconds => carried? seconds total

/-- The shorter of two lengths of time: the seconds decide, then the nanoseconds past them. -/
protected def min (a b : Parts) : Parts :=
  if b.seconds < a.seconds ∨ b.seconds = a.seconds ∧ b.subsecond < a.subsecond then b else a

theorem carried?_eq_some_iff {seconds total : UInt64} {d : Parts} :
    carried? seconds total = some d ↔
      d.whole.nanos = seconds.toNat * 1000000000 + total.toNat := by
  have hsubsecond := d.subsecond_lt
  have hquot : (total / 1000000000).toNat = total.toNat / 1000000000 := UInt64.toNat_div _ _
  have hrem : (total % 1000000000).toUInt32.toNat = total.toNat % 1000000000 := by
    rw [UInt64.toNat_toUInt32, UInt64.toNat_mod]
    exact Nat.mod_eq_of_lt (Nat.lt_trans (Nat.mod_lt _ (by decide)) (by decide))
  rw [carried?, Option.map_eq_some_iff]
  constructor
  · rintro ⟨n, hn, rfl⟩
    have hsum := sum?_eq_some_iff.mp hn
    show n.toNat * 1000000000 + (total % 1000000000).toUInt32.toNat = _
    omega
  · intro hwhole
    rw [nanos_whole] at hwhole
    have hsum : sum? seconds (total / 1000000000) = some d.seconds :=
      sum?_eq_some_iff.mpr (by omega)
    refine ⟨d.seconds, hsum, eq_of_whole (Duration.ext ?_)⟩
    show d.seconds.toNat * 1000000000 + (total % 1000000000).toUInt32.toNat =
      d.seconds.toNat * 1000000000 + d.subsecond.toNat
    omega

/-- **Parts are multiplied as the whole is.**  The nanoseconds never overflow: they are fewer than
`10 ^ 9`, and the factor is less than `2 ^ 32`. -/
theorem scale?_eq (d : Parts) (factor : UInt32) :
    d.scale? factor = some ((d.whole.scale? factor.toNat).map Duration.parts) := by
  have hroom : d.subsecond.toUInt64.toNat * factor.toUInt64.toNat < 18446744073709551616 := by
    rw [UInt32.toNat_toUInt64, UInt32.toNat_toUInt64]
    exact Nat.lt_of_le_of_lt
      (Nat.mul_le_mul (Nat.le_of_lt d.subsecond_lt) (Nat.le_of_lt factor.toNat_lt)) (by decide)
  obtain ⟨total, htotal, hvalue⟩ := exists_product hroom
  rw [UInt32.toNat_toUInt64, UInt32.toNat_toUInt64] at hvalue
  have hnanos : d.whole.nanos * factor.toNat =
      d.seconds.toNat * factor.toNat * 1000000000 + total.toNat := by
    rw [nanos_whole, Nat.add_mul, hvalue, Nat.mul_right_comm]
  rw [scale?, htotal, Option.map_some, Option.some.injEq]
  refine Option.ext fun e => ?_
  rw [Duration.scale?, map_parts_of?_eq_some_iff, hnanos, Option.bind_eq_some_iff]
  simp only [product?_eq_some_iff, carried?_eq_some_iff, UInt32.toNat_toUInt64]
  constructor
  · rintro ⟨seconds, hseconds, he⟩
    rw [he, hseconds]
  · intro he
    have hlt := e.seconds.toNat_lt
    have hsubsecond := e.subsecond_lt
    rw [nanos_whole] at he
    obtain ⟨seconds, -, hseconds⟩ :=
      exists_product (a := d.seconds) (b := factor.toUInt64) (by
        rw [UInt32.toNat_toUInt64]
        omega)
    rw [UInt32.toNat_toUInt64] at hseconds
    exact ⟨seconds, hseconds.symm, by rw [nanos_whole, he, hseconds]⟩

theorem min_eq (a b : Parts) : a.min b = (a.whole.min b.whole).parts := by
  have ha := a.subsecond_lt
  have hb := b.subsecond_lt
  have hshorter : (b.seconds < a.seconds ∨ b.seconds = a.seconds ∧ b.subsecond < a.subsecond) ↔
      ¬a.whole.nanos ≤ b.whole.nanos := by
    rw [UInt64.lt_iff_toNat_lt, UInt32.lt_iff_toNat_lt, ← UInt64.toNat_inj, nanos_whole,
      nanos_whole]
    omega
  unfold Parts.min Duration.min
  by_cases hle : a.whole.nanos ≤ b.whole.nanos
  · rw [if_neg fun hlt => hshorter.mp hlt hle, if_pos hle, parts_whole]
  · rw [if_pos (hshorter.mpr hle), if_neg hle, parts_whole]

end Parts

end Duration

end AuditChain
