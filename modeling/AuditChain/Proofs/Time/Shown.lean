import AuditChain.Time.Text

/-!
# What a clock shows

A clock shows a leap second as the second after the one that it lengthens.  At the end of a minute
that is the second `60`, which nothing else is shown as.  Anywhere else it is the second that comes
next, so an instant in a leap second *off the minute* is shown as another instant, and their texts
are the same.

## Main definitions

* `Timestamp.OffMinute` — the instant is in a leap second off the minute.
* `Timestamp.shown` — the instant that it is shown as.

## Main results

* `TimeOfDay.of?_clock` — **what a clock shows is read as what the time is shown as.**
* `Timestamp.shown_eq_self_iff` — the instants that are shown as themselves.
* `Timestamp.canonical_shown`, `Timestamp.compact_shown` — an instant has the texts of what it is
  shown as.
-/

namespace AuditChain

/-! ### Times of day -/

namespace TimeOfDay

variable {t : TimeOfDay}

/-- The time is in a leap second that does not end a minute. -/
def OffMinute (t : TimeOfDay) : Prop :=
  1000000000 ≤ t.nanos ∧ t.seconds % 60 ≠ 59

instance (t : TimeOfDay) : Decidable t.OffMinute :=
  inferInstanceAs (Decidable (_ ∧ _))

/-- The time that it is shown as: off the minute, a leap second is shown as the second that comes
next. -/
def shown (t : TimeOfDay) : TimeOfDay :=
  if h : t.OffMinute then {
    seconds := t.seconds + 1
    nanos := t.nanos - 1000000000
    isTime := by
      obtain ⟨hleap, hoff⟩ := h
      obtain ⟨hseconds, hnanos⟩ := t.isTime
      exact ⟨by omega, by omega⟩ }
  else t

theorem shown_of_not (h : ¬t.OffMinute) : t.shown = t :=
  dif_neg h

/-- What a time is shown as, in numbers. -/
theorem shown_cases (t : TimeOfDay) :
    ¬t.OffMinute ∧ t.shown = t ∨
    t.OffMinute ∧ t.shown.seconds = t.seconds + 1 ∧ t.shown.nanos = t.nanos - 1000000000 := by
  by_cases h : t.OffMinute
  · right
    rw [shown, dif_pos h]
    exact ⟨h, rfl, rfl⟩
  · exact .inl ⟨h, shown_of_not h⟩

/-- A time that others are shown as is shown as itself. -/
theorem not_offMinute_shown (t : TimeOfDay) : ¬t.shown.OffMinute := by
  rcases t.shown_cases with ⟨h, heq⟩ | ⟨h, -, hnanos⟩
  · rwa [heq]
  · rintro ⟨hleap, -⟩
    have hlt := t.isTime.2
    omega

theorem shown_ne (h : t.OffMinute) : t.shown ≠ t := by
  intro heq
  have hnot := t.not_offMinute_shown
  rw [heq] at hnot
  exact hnot h

/-- Times that are shown alike are equal, unless one of them alone is off the minute. -/
theorem eq_of_shown_eq {u : TimeOfDay} (h : t.shown = u.shown)
    (hoff : t.OffMinute ↔ u.OffMinute) : t = u := by
  rcases t.shown_cases with ⟨ht, hst⟩ | ⟨ht, hst, hnt⟩
  · rw [hst, shown_of_not fun hu => ht (hoff.mpr hu)] at h
    exact h
  · rcases u.shown_cases with ⟨hu, -⟩ | ⟨hu, hsu, hnu⟩
    · exact absurd (hoff.mp ht) hu
    · rw [h, hsu] at hst
      rw [h, hnu] at hnt
      have htleap := ht.1
      have huleap := hu.1
      exact ext (by omega) (by omega)

/-! ### The clock -/

theorem hour_shown (t : TimeOfDay) : t.shown.hour = t.hour := by
  rcases t.shown_cases with ⟨-, heq⟩ | ⟨h, hs, -⟩
  · rw [heq]
  · have hoff := h.2
    rw [hour, hour, hs]
    omega

theorem minute_shown (t : TimeOfDay) : t.shown.minute = t.minute := by
  rcases t.shown_cases with ⟨-, heq⟩ | ⟨h, hs, -⟩
  · rw [heq]
  · have hoff := h.2
    rw [minute, minute, hs]
    omega

theorem second_shown (t : TimeOfDay) : t.shown.second = t.second := by
  rcases t.shown_cases with ⟨-, heq⟩ | ⟨h, hs, hn⟩
  · rw [heq]
  · obtain ⟨hleap, hoff⟩ := h
    rw [second, second, hs, hn]
    omega

theorem subsecond_shown (t : TimeOfDay) : t.shown.subsecond = t.subsecond := by
  rcases t.shown_cases with ⟨-, heq⟩ | ⟨h, -, hn⟩
  · rw [heq]
  · have hleap := h.1
    rw [subsecond, subsecond, hn]
    omega

/-- A clock shows what it can show. -/
theorem isClock (t : TimeOfDay) : IsClock t.hour t.minute t.second t.subsecond := by
  obtain ⟨hs, hn⟩ := t.isTime
  rw [hour, minute, second, subsecond]
  exact ⟨by omega, by omega, by omega, by omega⟩

/-- The seconds of what is shown, counted off the clock. -/
theorem seconds_shown (t : TimeOfDay) :
    t.shown.seconds = 3600 * t.hour + 60 * t.minute + min t.second 59 := by
  have hnanos := t.isTime.2
  rcases t.shown_cases with ⟨h, heq⟩ | ⟨h, hseconds, -⟩
  · rw [heq]
    simp only [OffMinute, hour, minute, second] at h ⊢
    omega
  · rw [hseconds]
    simp only [OffMinute, hour, minute, second] at h ⊢
    omega

/-- Its nanoseconds: the second `60` is the only one that a leap second is shown as. -/
theorem nanos_shown (t : TimeOfDay) : t.shown.nanos =
    if t.second = 60 then 1000000000 + t.subsecond else t.subsecond := by
  have hnanos := t.isTime.2
  rcases t.shown_cases with ⟨h, heq⟩ | ⟨h, -, hshown⟩
  · rw [heq]
    split
    · rename_i hsixty
      simp only [OffMinute, second, subsecond] at h hsixty ⊢
      omega
    · rename_i hnot
      simp only [OffMinute, second, subsecond] at h hnot ⊢
      omega
  · have hnot : t.second ≠ 60 := by
      simp only [OffMinute, second] at h ⊢
      omega
    rw [hshown, if_neg hnot]
    simp only [OffMinute, subsecond] at h ⊢
    omega

/-- **What a clock shows is read as what the time is shown as.** -/
theorem of?_clock (t : TimeOfDay) : of? t.hour t.minute t.second t.subsecond = some t.shown := by
  rw [of?, dif_pos t.isClock, Option.some.injEq]
  exact ext t.seconds_shown.symm t.nanos_shown.symm

end TimeOfDay

/-! ### Instants -/

namespace Timestamp

variable {t : Timestamp}

/-- The instant is in a leap second that does not end a minute. -/
def OffMinute (t : Timestamp) : Prop :=
  t.time.OffMinute

instance (t : Timestamp) : Decidable t.OffMinute :=
  inferInstanceAs (Decidable t.time.OffMinute)

/-- The instant that it is shown as. -/
def shown (t : Timestamp) : Timestamp :=
  { t with time := t.time.shown }

@[simp] theorem date_shown (t : Timestamp) : t.shown.date = t.date := rfl

theorem shown_of_not (h : ¬t.OffMinute) : t.shown = t := by
  rw [shown, TimeOfDay.shown_of_not h]

theorem not_offMinute_shown (t : Timestamp) : ¬t.shown.OffMinute :=
  t.time.not_offMinute_shown

/-- An instant is shown as itself just if it is not in a leap second off the minute. -/
theorem shown_eq_self_iff : t.shown = t ↔ ¬t.OffMinute := by
  refine ⟨fun heq hoff => ?_, shown_of_not⟩
  exact TimeOfDay.shown_ne hoff (congrArg Timestamp.time heq)

@[simp] theorem shown_shown (t : Timestamp) : t.shown.shown = t.shown :=
  shown_of_not t.not_offMinute_shown

/-- Instants that are shown alike are equal, unless one of them alone is in a leap second off the
minute. -/
theorem eq_of_shown_eq {u : Timestamp} (h : t.shown = u.shown)
    (hoff : t.OffMinute ↔ u.OffMinute) : t = u := by
  obtain ⟨hdate, htime⟩ := (Timestamp.mk.injEq ..).mp h
  cases t
  cases u
  exact (Timestamp.mk.injEq ..).mpr ⟨hdate, TimeOfDay.eq_of_shown_eq htime hoff⟩

/-! ### Texts -/

theorem stem_shown (t : Timestamp) : t.shown.stem = t.stem := by
  simp only [stem, shown, TimeOfDay.text, TimeOfDay.hour_shown, TimeOfDay.minute_shown,
    TimeOfDay.second_shown]

/-- An instant has the canonical text of what it is shown as. -/
@[simp] theorem canonical_shown (t : Timestamp) : t.shown.canonical = t.canonical := by
  rw [canonical, canonicalChars, stem_shown, shown, TimeOfDay.subsecond_shown]
  rfl

/-- It has the compact text of that, too. -/
@[simp] theorem compact_shown (t : Timestamp) : t.shown.compact = t.compact := by
  rw [compact, compactChars, stem_shown, shown, TimeOfDay.fraction, TimeOfDay.subsecond_shown]
  rfl

end Timestamp

end AuditChain
