/-!
# Calendar dates

Dates of the proleptic Gregorian calendar, which has a year zero, within the years that an
instant of the ledger may lie in.

## Main definitions

* `daysInMonth` — the length of a month.
* `Date` — a date that exists, in a year of the supported range.
* `Date.of?` — the date of a year, a month and a day.
* `Date.next?`, `Date.prev?` — the neighbouring dates.
-/

namespace AuditChain

/-- Every fourth year is a leap year, except the centuries that four hundred does not divide. -/
def IsLeapYear (year : Int) : Prop :=
  year % 4 = 0 ∧ (year % 100 ≠ 0 ∨ year % 400 = 0)

instance (year : Int) : Decidable (IsLeapYear year) :=
  inferInstanceAs (Decidable (_ ∧ _))

/-- The number of days in a month of a year. -/
def daysInMonth (year : Int) (month : Nat) : Nat :=
  if month = 2 then if IsLeapYear year then 29 else 28
  else if month = 4 ∨ month = 6 ∨ month = 9 ∨ month = 11 then 30
  else 31

/-- The first year of the supported range. -/
def minYear : Int := -262143

/-- The last year of the supported range. -/
def maxYear : Int := 262142

/-- A year, a month and a day that name a date of the supported range. -/
def IsDate (year : Int) (month day : Nat) : Prop :=
  minYear ≤ year ∧ year ≤ maxYear ∧ 1 ≤ month ∧ month ≤ 12
    ∧ 1 ≤ day ∧ day ≤ daysInMonth year month

instance (year : Int) (month day : Nat) : Decidable (IsDate year month day) :=
  inferInstanceAs (Decidable (_ ∧ _))

/-- A date of the proleptic Gregorian calendar. -/
structure Date where
  /-- The year; zero is the year before the first. -/
  year : Int
  /-- The month, from one. -/
  month : Nat
  /-- The day of the month, from one. -/
  day : Nat
  /-- The date exists and its year is supported. -/
  isDate : IsDate year month day
  deriving DecidableEq, Repr

namespace Date

@[ext] theorem ext {a b : Date} (hy : a.year = b.year) (hm : a.month = b.month)
    (hd : a.day = b.day) : a = b := by
  cases a; cases b; simp_all

/-- The date of a year, a month and a day, if there is one. -/
def of? (year : Int) (month day : Nat) : Option Date :=
  if h : IsDate year month day then some ⟨year, month, day, h⟩ else none

@[simp] theorem of?_self (d : Date) : of? d.year d.month d.day = some d := by
  simp [of?, d.isDate]

/-- The day after, unless it is the end of the last supported year. -/
def next? (d : Date) : Option Date :=
  match of? d.year d.month (d.day + 1) with
  | some e => some e
  | none =>
    match of? d.year (d.month + 1) 1 with
    | some e => some e
    | none => of? (d.year + 1) 1 1

/-- The day before, unless it is the start of the first supported year. -/
def prev? (d : Date) : Option Date :=
  if 1 < d.day then of? d.year d.month (d.day - 1)
  else if 1 < d.month then of? d.year (d.month - 1) (daysInMonth d.year (d.month - 1))
  else of? (d.year - 1) 12 31

/-- The date so many days later, if it is supported. -/
def addDays? : Nat → Date → Option Date
  | 0, d => some d
  | n + 1, d => d.next?.bind (addDays? n)

end Date

end AuditChain
