import AuditChain.Proofs.Text.Digits
import AuditChain.Proofs.Time.Shown
import Mathlib.Data.List.TakeWhile

/-!
# Instants written and read

An instant is written in columns of digits after its year, as a clock shows it.  The lenient reader
reads every instant back as it is shown, from any of its texts.  The strict reader has four columns
for the year, so it reads back the years that are written without a sign, and refuses all others.

## Main definitions

* `Timestamp.HasPlainYear` — the year is written without a sign.

## Main results

* `Timestamp.readStrict_canonical` — **the strict reader reads exactly the plain years back.**
* `Timestamp.readLenient_canonical`, `Timestamp.readLenient_compact` — **the lenient reader reads
  every instant back as it is shown**, with nine fraction digits or as few as are exact.
* `Timestamp.canonical_eq_iff` — two instants have one canonical text just if they are shown alike.
-/

namespace AuditChain

open Text

/-- The year is written in four digits, without a sign. -/
def Timestamp.HasPlainYear (t : Timestamp) : Prop :=
  0 ≤ t.date.year ∧ t.date.year ≤ 9999

instance (t : Timestamp) : Decidable t.HasPlainYear :=
  inferInstanceAs (Decidable (_ ∧ _))

namespace Date

theorem month_le (d : Date) : 1 ≤ d.month ∧ d.month ≤ 12 :=
  ⟨d.isDate.2.2.1, d.isDate.2.2.2.1⟩

theorem day_le (d : Date) : 1 ≤ d.day ∧ d.day ≤ 31 := by
  refine ⟨d.isDate.2.2.2.2.1, Nat.le_trans d.isDate.2.2.2.2.2 ?_⟩
  unfold daysInMonth
  split
  · split <;> omega
  · split <;> omega

theorem month_lt (d : Date) : d.month < 10 ^ 2 := by
  have h := d.month_le
  omega

theorem day_lt (d : Date) : d.day < 10 ^ 2 := by
  have h := d.day_le
  omega

theorem year_bounds (d : Date) : -2147483648 ≤ d.year ∧ d.year ≤ 2147483647 := by
  have hmin : minYear ≤ d.year := d.isDate.1
  have hmax : d.year ≤ maxYear := d.isDate.2.1
  rw [minYear] at hmin
  rw [maxYear] at hmax
  omega

/-- A year takes four columns at least. -/
theorem four_le_length_yearText (year : Int) : 4 ≤ (yearText year).length := by
  rw [yearText]
  split
  · rw [length_fixed]
  · rw [List.length_cons, padded, List.length_append, List.length_replicate]
    omega

/-- A year takes eleven columns at most. -/
theorem length_yearText_le (d : Date) : (yearText d.year).length ≤ 11 := by
  have hdigits : (natural d.year.natAbs).length ≤ 10 := by
    have hbounds := d.year_bounds
    rw [natural, Nat.length_toDigits_le_iff (by decide) (by decide)]
    omega
  rw [yearText]
  split
  · rw [length_fixed]
    decide
  · rw [List.length_cons, padded, List.length_append, List.length_replicate]
    omega

end Date

namespace TimeOfDay

theorem hour_lt (t : TimeOfDay) : t.hour < 10 ^ 2 := by
  have h := t.isClock.1
  omega

theorem minute_lt (t : TimeOfDay) : t.minute < 10 ^ 2 := by
  have h := t.isClock.2.1
  omega

theorem second_lt (t : TimeOfDay) : t.second < 10 ^ 2 := by
  have h := t.isClock.2.2.1
  omega

theorem subsecond_lt (t : TimeOfDay) : t.subsecond < 10 ^ 9 :=
  t.isClock.2.2.2

end TimeOfDay

namespace Timestamp

/-! ### Parts -/

theorem readColumns_fixed {places n : Nat} (h : n < 10 ^ places) (rest : List Char) :
    readColumns places (fixed places n ++ rest) = .ok (n, rest) := by
  have htake : (fixed places n ++ rest).take places = fixed places n := by
    rw [List.take_append_of_le_length (by simp), List.take_of_length_le (by simp)]
  have hdrop : (fixed places n ++ rest).drop places = rest := by
    rw [List.drop_append_of_le_length (by simp), List.drop_of_length_le (by simp), List.nil_append]
  have hall : (fixed places n).all isDigit = true := by
    rw [List.all_eq_true]
    exact fun c hc => isDigit_of_mem_fixed hc
  rw [readColumns, htake, hdrop, valueOf_fixed h, if_pos ⟨length_fixed places n, hall⟩]

/-- A run of digits is read if the reader looks at none beyond it. -/
theorem readDigits_some {n : Nat} {digits rest : List Char} (hne : digits ≠ [])
    (hrun : ((digits ++ rest).take n).takeWhile isDigit = digits) :
    readDigits (some n) (digits ++ rest) = .ok (digits, rest) := by
  obtain ⟨c, s, hs⟩ : ∃ c s, digits ++ rest = c :: s :=
    List.exists_cons_of_ne_nil (List.append_ne_nil_of_left_ne_nil hne rest)
  have hempty : ¬digits.isEmpty = true := by simpa using hne
  rw [hs] at hrun
  rw [hs, readDigits]
  simp only [hrun]
  rw [if_neg hempty, ← hs, List.drop_append_of_le_length (Nat.le_refl _), List.drop_length,
    List.nil_append]

/-- A run of digits is read up to what is no digit. -/
theorem readDigits_none {digits : List Char} (hne : digits ≠ [])
    (hdigits : ∀ c ∈ digits, isDigit c = true) {c : Char} (hc : isDigit c = false)
    (rest : List Char) :
    readDigits none (digits ++ c :: rest) = .ok (digits, c :: rest) := by
  obtain ⟨d, s, hs⟩ : ∃ d s, digits ++ c :: rest = d :: s :=
    List.exists_cons_of_ne_nil (List.append_ne_nil_of_left_ne_nil hne _)
  have hrun := takeWhile_digits hdigits hc rest
  have hempty : ¬digits.isEmpty = true := by simpa using hne
  rw [hs] at hrun
  rw [hs, readDigits]
  simp only [hrun]
  rw [if_neg hempty, ← hs, List.drop_append_of_le_length (Nat.le_refl _), List.drop_length,
    List.nil_append]

/-- So many columns are read as a run of so many digits. -/
theorem readDigits_fixed {places : Nat} (hplaces : 0 < places) (n : Nat) (rest : List Char) :
    readDigits (some places) (fixed places n ++ rest) = .ok (fixed places n, rest) := by
  refine readDigits_some (fixed_ne_nil hplaces n) ?_
  rw [List.take_append_of_le_length (by simp), List.take_of_length_le (by simp),
    List.takeWhile_eq_self_iff]
  exact fun c hc => isDigit_of_mem_fixed hc

/-- Digits after a point are read as a fraction, which they say in billionths if there are nine of
them, and in greater parts if there are fewer. -/
theorem readFraction_fixed {places n : Nat} (hplaces : 0 < places) (hle : places ≤ 9)
    (hn : n < 10 ^ places) {c : Char} (hc : isDigit c = false) (rest : List Char) :
    readFraction ('.' :: (fixed places n ++ c :: rest)) =
      .ok (n * 10 ^ (9 - places), c :: rest) := by
  have hdigits : ∀ d ∈ fixed places n, isDigit d = true := fun d hd => isDigit_of_mem_fixed hd
  have hwindow : (fixed places n ++ c :: rest).take 9 =
      fixed places n ++ (c :: rest).take (9 - places) := by
    rw [List.take_append, length_fixed, List.take_of_length_le (by rw [length_fixed]; exact hle)]
  have hstop : ((c :: rest).take (9 - places)).takeWhile isDigit = [] := by
    cases 9 - places with
    | zero => rfl
    | succ k => rw [List.take_succ_cons, List.takeWhile_cons_of_neg (by simp [hc])]
  have hrun : ((fixed places n ++ c :: rest).take 9).takeWhile isDigit = fixed places n := by
    rw [hwindow, List.takeWhile_append_of_pos hdigits, hstop, List.append_nil]
  simp only [readFraction]
  rw [readDigits_some (fixed_ne_nil hplaces n) hrun]
  show Except.ok (valueOf (fixed places n) * Nat.pow 10 (9 - (fixed places n).length),
    (c :: rest).dropWhile isDigit) = _
  rw [valueOf_fixed hn, length_fixed, List.dropWhile_cons_of_neg (by simp [hc]), Nat.pow_eq]

/-- Universal time is read back. -/
theorem readOffset_zulu (separator : List Char → Except TimestampFault (List Char)) :
    readOffset separator ['Z'] = .ok (0, []) := rfl

theorem readBetween_time (rest : List Char) : readBetween ('T' :: rest) = .ok rest := rfl

/-- The instant at no offset is the instant itself. -/
theorem assemble_zero (t : Timestamp) : assemble t.date t.time 0 = .ok t := by
  rw [assemble, if_pos (by decide), ofLocal?_zero]

/-- A text has no fewer octets than characters. -/
theorem length_le_octets (s : List Char) : s.length ≤ octets s := by
  have hfold : ∀ n, n + s.length ≤ s.foldl (fun n c => n + c.utf8Size) n := by
    induction s with
    | nil => exact fun n => Nat.le_refl n
    | cons c s ih =>
      intro n
      have hpos := c.utf8Size_pos
      have hrest := ih (n + c.utf8Size)
      rw [List.length_cons, List.foldl_cons]
      omega
  have h := hfold 0
  rwa [Nat.zero_add] at h

/-- Date and time take nineteen octets at least. -/
theorem not_octets_lt (t : Timestamp) (rest : List Char) : ¬octets (t.stem ++ rest) < 19 := by
  have hstem : 19 ≤ t.stem.length := by
    have hyear := Date.four_le_length_yearText t.date.year
    simp only [stem, Date.text, TimeOfDay.text, List.length_append, List.length_cons, length_fixed]
    omega
  have hlength := length_le_octets (t.stem ++ rest)
  rw [List.length_append] at hlength
  omega

/-- The columns after the year. -/
theorem stem_append (t : Timestamp) (rest : List Char) :
    t.stem ++ rest = Date.yearText t.date.year ++ '-' :: (fixed 2 t.date.month ++ '-' ::
      (fixed 2 t.date.day ++ 'T' :: (fixed 2 t.time.hour ++ ':' :: (fixed 2 t.time.minute ++ ':' ::
      (fixed 2 t.time.second ++ rest))))) := by
  simp [stem, Date.text, TimeOfDay.text]

/-! ### The strict reader -/

/-- The strict reader reads a plain year back, whatever way the fraction is written. -/
theorem readStrictChars_stem (t : Timestamp) (hplain : t.HasPlainYear) {fraction : List Char}
    (hfraction : readFraction (fraction ++ ['Z']) = .ok (t.time.subsecond, ['Z'])) :
    readStrictChars (t.stem ++ (fraction ++ ['Z'])) = .ok t.shown := by
  obtain ⟨year, hyear⟩ := Int.eq_ofNat_of_zero_le hplain.1
  have hyearlt : year < 10 ^ 4 := by
    have h := hplain.2
    omega
  have htext : Date.yearText t.date.year = fixed 4 year := by
    have hplain' : 0 ≤ t.date.year ∧ t.date.year ≤ 9999 := hplain
    rw [Date.yearText, if_pos hplain', hyear, Int.toNat_natCast]
  have hdate : Date.of? (year : Int) t.date.month t.date.day = some t.date := by
    rw [← hyear, Date.of?_self]
  rw [readStrictChars, if_neg (t.not_octets_lt _), stem_append, htext]
  simp only [readColumns_fixed hyearlt, readColumns_fixed t.date.month_lt,
    readColumns_fixed t.date.day_lt, readColumns_fixed t.time.hour_lt,
    readColumns_fixed t.time.minute_lt, readColumns_fixed t.time.second_lt, bind, Except.bind,
    hdate, ↓reduceIte, readBetween_time, hfraction, TimeOfDay.of?_clock,
    readOffset_zulu, List.isEmpty_nil]
  exact assemble_zero t.shown

/-- The strict reader refuses every other year for its sign. -/
theorem readStrictChars_stem_of_not (t : Timestamp) (hsigned : ¬t.HasPlainYear) (rest : List Char) :
    readStrictChars (t.stem ++ rest) = .error .invalid := by
  have htext : Date.yearText t.date.year =
      (if t.date.year < 0 then '-' else '+') :: padded 4 t.date.year.natAbs := by
    have hsigned' : ¬(0 ≤ t.date.year ∧ t.date.year ≤ 9999) := hsigned
    rw [Date.yearText, if_neg hsigned']
  have hsign : isDigit (if t.date.year < 0 then '-' else '+') = false := by
    split <;> decide
  rw [readStrictChars, if_neg (t.not_octets_lt rest), stem_append, htext]
  have hcolumns : ∀ s, readColumns 4 ((if t.date.year < 0 then '-' else '+') :: s) =
      .error .invalid := by
    intro s
    rw [readColumns, if_neg]
    rintro ⟨-, hall⟩
    rw [List.take_succ_cons, List.all_cons, hsign, Bool.false_and] at hall
    exact Bool.false_ne_true hall
  rw [List.cons_append, hcolumns]
  rfl

/-! ### The lenient reader -/

theorem skipBlanks_digits {digits : List Char} (hne : digits ≠ [])
    (hdigits : ∀ c ∈ digits, isDigit c = true) (rest : List Char) :
    skipBlanks (digits ++ rest) = digits ++ rest := by
  cases digits with
  | nil => exact absurd rfl hne
  | cons c digits =>
    exact skipBlanks_cons_of_not_blank (isBlank_of_isDigit (hdigits c List.mem_cons_self))

/-- A field of two columns is read back. -/
theorem readField_fixed {lo hi n : Nat} (hlo : lo ≤ n) (hhi : n ≤ hi) (hn : n < 10 ^ 2)
    (rest : List Char) : readField lo hi (fixed 2 n ++ rest) = .ok (n, rest) := by
  have hne : fixed 2 n ≠ [] := fixed_ne_nil (by decide) n
  rw [readField, skipBlanks_digits hne (fun c hc => isDigit_of_mem_fixed hc),
    readDigits_fixed (by decide)]
  simp only [bind, Except.bind, valueOf_fixed hn, if_pos (And.intro hlo hhi)]
  rfl

/-- A year without a sign is read back: its first column is a digit, so it is no sign. -/
theorem readYear_fixed {d : Date} (hplain : 0 ≤ d.year ∧ d.year ≤ 9999) (rest : List Char) :
    readYear (fixed 4 d.year.toNat ++ '-' :: rest) = .ok (d.year, '-' :: rest) := by
  have hne : fixed 4 d.year.toNat ≠ [] := fixed_ne_nil (by decide) _
  obtain ⟨c, digits, hdigits⟩ := List.exists_cons_of_ne_nil hne
  have hc : isDigit c = true := by
    have hmem : c ∈ fixed 4 d.year.toNat := by
      rw [hdigits]
      exact List.mem_cons_self
    exact isDigit_of_mem_fixed hmem
  have hread : readDigits (some 4) (fixed 4 d.year.toNat ++ '-' :: rest) = _ :=
    readDigits_fixed (by decide) d.year.toNat ('-' :: rest)
  have hskip := skipBlanks_digits hne (fun c hc => isDigit_of_mem_fixed hc) ('-' :: rest)
  have hvalue : (valueOf (fixed 4 d.year.toNat) : Int) = d.year := by
    rw [valueOf_fixed (by omega)]
    omega
  rw [readYear, hskip]
  rw [hdigits, List.cons_append] at hread ⊢
  split
  · rename_i heq
    rw [(List.cons.inj heq).1] at hc
    exact absurd hc (by decide)
  · rename_i heq
    rw [(List.cons.inj heq).1] at hc
    exact absurd hc (by decide)
  · rw [hread]
    simp only [bind, Except.bind, ← hdigits, hvalue, if_pos d.year_bounds]

/-- Every year is read back. -/
theorem readYear_yearText (d : Date) (rest : List Char) :
    readYear (Date.yearText d.year ++ '-' :: rest) = .ok (d.year, '-' :: rest) := by
  have hsigned : ∀ n, readDigits none (padded 4 n ++ '-' :: rest) =
      .ok (padded 4 n, '-' :: rest) := fun n =>
    readDigits_none (padded_ne_nil 4 n) (fun c hc => isDigit_of_mem_padded hc) (by decide) rest
  rw [Date.yearText]
  by_cases hplain : 0 ≤ d.year ∧ d.year ≤ 9999
  · rw [if_pos hplain]
    exact readYear_fixed hplain rest
  · rw [if_neg hplain]
    by_cases hneg : d.year < 0
    · have hvalue : -(valueOf (padded 4 d.year.natAbs) : Int) = d.year := by
        rw [valueOf_padded]
        omega
      rw [if_pos hneg, List.cons_append, readYear, skipBlanks_cons_of_not_blank (by decide)]
      simp only [hsigned, bind, Except.bind, hvalue, if_pos d.year_bounds]
    · have hvalue : (valueOf (padded 4 d.year.natAbs) : Int) = d.year := by
        rw [valueOf_padded]
        omega
      rw [if_neg hneg, List.cons_append, readYear, skipBlanks_cons_of_not_blank (by decide)]
      simp only [hsigned, bind, Except.bind, hvalue, if_pos d.year_bounds]

/-- The lenient reader reads every instant back as it is shown, whatever way the fraction is
written. -/
theorem readLenientChars_stem (t : Timestamp) {fraction : List Char}
    (hfraction : readFraction (fraction ++ ['Z']) = .ok (t.time.subsecond, ['Z'])) :
    readLenientChars (t.stem ++ (fraction ++ ['Z'])) = .ok t.shown := by
  have hhyphen : ∀ s, skipBlanks ('-' :: s) = '-' :: s := fun s =>
    skipBlanks_cons_of_not_blank (by decide)
  have hcolon : ∀ s, skipBlanks (':' :: s) = ':' :: s := fun s =>
    skipBlanks_cons_of_not_blank (by decide)
  have hzulu : skipBlanks ['Z'] = ['Z'] := skipBlanks_cons_of_not_blank (by decide)
  have hname : dropUtc? ['Z'] = none := rfl
  obtain ⟨hhour, hminute, hsecond, -⟩ := t.time.isClock
  rw [readLenientChars, stem_append, readYear_yearText]
  simp only [bind, Except.bind, hhyphen, readMark, ↓reduceIte, hcolon,
    readField_fixed t.date.month_le.1 t.date.month_le.2 t.date.month_lt,
    readField_fixed t.date.day_le.1 t.date.day_le.2 t.date.day_lt, readBetween_time,
    readField_fixed (Nat.zero_le _) (Nat.le_of_lt_succ hhour) t.time.hour_lt,
    readField_fixed (Nat.zero_le _) (Nat.le_of_lt_succ hminute) t.time.minute_lt,
    readField_fixed (Nat.zero_le _) hsecond t.time.second_lt, hfraction, hzulu, hname,
    readOffset_zulu, skipBlanks_nil, List.isEmpty_nil, Date.of?_self, TimeOfDay.of?_clock]
  exact assemble_zero t.shown

/-! ### Canonical texts -/

theorem canonicalChars_eq (t : Timestamp) :
    t.canonicalChars = t.stem ++ ('.' :: fixed 9 t.time.subsecond ++ ['Z']) := by
  rw [canonicalChars, List.append_assoc]

theorem readFraction_canonical (t : Timestamp) :
    readFraction ('.' :: fixed 9 t.time.subsecond ++ ['Z']) = .ok (t.time.subsecond, ['Z']) := by
  have hread := readFraction_fixed (by decide) (by decide) t.time.subsecond_lt
    (show isDigit 'Z' = false by decide) []
  rwa [Nat.sub_self, Nat.pow_zero, Nat.mul_one] at hread

/-- **The strict reader reads exactly the plain years back**, as they are shown, and refuses every
other one. -/
theorem readStrict_canonical (t : Timestamp) :
    readStrict t.canonical = if t.HasPlainYear then .ok t.shown else .error .invalid := by
  rw [readStrict, canonical, String.toList_ofList, canonicalChars_eq]
  by_cases hplain : t.HasPlainYear
  · rw [if_pos hplain]
    exact t.readStrictChars_stem hplain t.readFraction_canonical
  · rw [if_neg hplain]
    exact t.readStrictChars_stem_of_not hplain _

/-- **The lenient reader reads every instant back as it is shown.** -/
theorem readLenient_canonical (t : Timestamp) : readLenient t.canonical = .ok t.shown := by
  rw [readLenient, canonical, String.toList_ofList, canonicalChars_eq]
  exact t.readLenientChars_stem t.readFraction_canonical

/-- A canonical text is short. -/
theorem length_canonicalChars_le (t : Timestamp) : t.canonicalChars.length ≤ 37 := by
  have hyear := t.date.length_yearText_le
  simp only [canonicalChars, stem, Date.text, TimeOfDay.text, List.length_append,
    List.length_cons, List.length_nil, length_fixed]
  omega

/-- Two instants have one canonical text just if they are shown alike. -/
theorem canonical_eq_iff {t u : Timestamp} : t.canonical = u.canonical ↔ t.shown = u.shown := by
  constructor
  · intro h
    have ht := t.readLenient_canonical
    rw [h, u.readLenient_canonical] at ht
    exact (Except.ok.inj ht).symm
  · intro h
    rw [← t.canonical_shown, h, u.canonical_shown]

/-! ### Compact texts -/

/-- The shortest exact fraction is read back. -/
theorem readFraction_fraction (t : TimeOfDay) :
    readFraction (t.fraction ++ ['Z']) = .ok (t.subsecond, ['Z']) := by
  have hnanos := t.subsecond_lt
  have hread : ∀ places n, 0 < places → places ≤ 9 → n < 10 ^ places →
      readFraction ('.' :: fixed places n ++ ['Z']) = .ok (n * 10 ^ (9 - places), ['Z']) :=
    fun places n hplaces hle hn => readFraction_fixed hplaces hle hn (by decide) []
  rw [TimeOfDay.fraction]
  split
  · rw [List.nil_append, ‹t.subsecond = 0›]
    rfl
  split
  · -- nothing is lost: the nanoseconds are so many milliseconds
    have hexact : t.subsecond / 1000000 * 10 ^ (9 - 3) = t.subsecond := by omega
    rw [hread 3 _ (by decide) (by decide) (by omega), hexact]
  split
  · have hexact : t.subsecond / 1000 * 10 ^ (9 - 6) = t.subsecond := by omega
    rw [hread 6 _ (by decide) (by decide) (by omega), hexact]
  · rw [hread 9 _ (by decide) (by decide) hnanos, Nat.sub_self, Nat.pow_zero, Nat.mul_one]

/-- **The lenient reader reads every instant back from its compact text**, as it is shown. -/
theorem readLenient_compact (t : Timestamp) : readLenient t.compact = .ok t.shown := by
  rw [readLenient, compact, String.toList_ofList, compactChars, List.append_assoc]
  exact t.readLenientChars_stem (readFraction_fraction t.time)

end Timestamp

end AuditChain
