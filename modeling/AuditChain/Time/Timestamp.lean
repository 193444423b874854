import AuditChain.Time.Date

/-!
# Instants

An instant in universal time, to the nanosecond.  A leap second makes a second last twice as long:
its nanoseconds go on to two billion.  As a clock shows it, it is the second after the one that it
lengthens, so at the end of a minute it is the second `60`; anywhere else the clock shows the same
for it and for the second that comes next, although these are different instants.

## Main definitions

* `TimeOfDay` — the seconds since midnight and the nanoseconds past them.
* `TimeOfDay.hour`, `TimeOfDay.minute`, `TimeOfDay.second`, `TimeOfDay.subsecond` — what a clock
  shows.
* `TimeOfDay.of?` — the time of day that a clock shows.
* `Timestamp` — a date and a time of day in universal time.
* `Timestamp.ofLocal?` — the instant of a local reading at an offset in minutes.
* `Timestamp.addSeconds?` — a later instant.
-/

namespace AuditChain

/-- So many seconds since midnight, and so many nanoseconds past them, are within a day; in a leap
second there are two billion nanoseconds. -/
def IsTimeOfDay (seconds nanos : Nat) : Prop :=
  seconds < 86400 ∧ nanos < 2000000000

instance (seconds nanos : Nat) : Decidable (IsTimeOfDay seconds nanos) :=
  inferInstanceAs (Decidable (_ ∧ _))

/-- A time of day, to the nanosecond. -/
structure TimeOfDay where
  /-- The seconds since midnight, leap seconds not counted. -/
  seconds : Nat
  /-- The nanoseconds past the second; from a billion on they are in a leap second. -/
  nanos : Nat
  /-- Both are within their ranges. -/
  isTime : IsTimeOfDay seconds nanos
  deriving DecidableEq, Repr

namespace TimeOfDay

@[ext] theorem ext {a b : TimeOfDay} (hs : a.seconds = b.seconds) (hn : a.nanos = b.nanos) :
    a = b := by
  cases a; cases b; simp_all

/-- The hour that a clock shows. -/
def hour (t : TimeOfDay) : Nat :=
  t.seconds / 3600

/-- The minute that a clock shows. -/
def minute (t : TimeOfDay) : Nat :=
  t.seconds / 60 % 60

/-- The second that a clock shows, one more in a leap second. -/
def second (t : TimeOfDay) : Nat :=
  t.seconds % 60 + t.nanos / 1000000000

/-- The nanoseconds that a clock shows. -/
def subsecond (t : TimeOfDay) : Nat :=
  t.nanos % 1000000000

/-- What a clock can show; the second `60` is a leap second. -/
def IsClock (hour minute second subsecond : Nat) : Prop :=
  hour < 24 ∧ minute < 60 ∧ second ≤ 60 ∧ subsecond < 1000000000

instance (hour minute second subsecond : Nat) : Decidable (IsClock hour minute second subsecond) :=
  inferInstanceAs (Decidable (_ ∧ _))

/-- The time of day that a clock shows, if it can show that.  The second `60` is the leap second at
the end of the minute. -/
def of? (hour minute second subsecond : Nat) : Option TimeOfDay :=
  if h : IsClock hour minute second subsecond then
    some {
      seconds := 3600 * hour + 60 * minute + min second 59
      nanos := if second = 60 then 1000000000 + subsecond else subsecond
      isTime := by
        obtain ⟨h1, h2, h3, h4⟩ := h
        refine ⟨by omega, ?_⟩
        split <;> omega }
  else none

/-- The minutes since midnight. -/
def minutes (t : TimeOfDay) : Nat :=
  t.seconds / 60

/-- The same second of another minute of the day, the minute counted round the clock. -/
def atMinute (t : TimeOfDay) (m : Nat) : TimeOfDay where
  seconds := 60 * (m % 1440) + t.seconds % 60
  nanos := t.nanos
  isTime := by
    have hm : m % 1440 < 1440 := Nat.mod_lt _ (by decide)
    exact ⟨by omega, t.isTime.2⟩

theorem minutes_lt (t : TimeOfDay) : t.minutes < 1440 := by
  have hseconds := t.isTime.1
  rw [minutes]
  omega

/-- The same second of its own minute is the time itself. -/
theorem atMinute_minutes (t : TimeOfDay) : t.atMinute t.minutes = t := by
  apply ext
  · show 60 * (t.minutes % 1440) + t.seconds % 60 = t.seconds
    rw [Nat.mod_eq_of_lt t.minutes_lt, minutes]
    exact Nat.div_add_mod t.seconds 60
  · rfl

end TimeOfDay

/-- An instant in universal time. -/
structure Timestamp where
  /-- The date. -/
  date : Date
  /-- The time of that day. -/
  time : TimeOfDay
  deriving DecidableEq, Repr

namespace Timestamp

/-- The instant that a clock `offset` minutes ahead of universal time shows as `date` and
`time`.  The offset is below a day in either direction, so the date moves by one day at most;
there is no instant if that leaves the supported years. -/
def ofLocal? (date : Date) (time : TimeOfDay) (offset : Int) : Option Timestamp :=
  let m : Int := time.minutes - offset
  if m < 0 then date.prev?.map fun d => ⟨d, time.atMinute (m + 1440).toNat⟩
  else if 1440 ≤ m then date.next?.map fun d => ⟨d, time.atMinute (m - 1440).toNat⟩
  else some ⟨date, time.atMinute m.toNat⟩

/-- A clock at universal time shows the instant itself. -/
@[simp] theorem ofLocal?_zero (t : Timestamp) : ofLocal? t.date t.time 0 = some t := by
  have hm := t.time.minutes_lt
  have hn : ¬(t.time.minutes : Int) < 0 := by omega
  have hx : ¬1440 ≤ (t.time.minutes : Int) := by omega
  simp only [ofLocal?, Int.sub_zero, hn, hx, if_false, Int.toNat_natCast,
    TimeOfDay.atMinute_minutes]

/-- The instant so many seconds later, if it is supported.  A leap second is left for the second
that comes next. -/
def addSeconds? (t : Timestamp) (seconds : Nat) : Option Timestamp :=
  if seconds = 0 then some t
  else
    let s := t.time.seconds + seconds
    (t.date.addDays? (s / 86400)).map fun d => ⟨d, {
      seconds := s % 86400
      nanos := t.time.subsecond
      isTime := ⟨Nat.mod_lt _ (by decide),
        Nat.lt_trans (Nat.mod_lt _ (by decide)) (by decide)⟩ }⟩

/-- The instant so many seconds later; an instant past the supported years stays put. -/
def addSeconds (t : Timestamp) (seconds : Nat) : Timestamp :=
  (t.addSeconds? seconds).getD t

end Timestamp

end AuditChain
