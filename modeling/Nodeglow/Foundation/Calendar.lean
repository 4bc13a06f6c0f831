import Mathlib.Algebra.BigOperators.Group.List.Basic
import Mathlib.Algebra.GroupWithZero.Nat
import Mathlib.Data.Nat.Find
import Mathlib.Order.Monotone.Basic

/-!
# Calendar

Dates of the proleptic Gregorian calendar and the ordinals of their days, as Python's `date` counts
them: the first of January of the year one has the ordinal one. With a time of day and without a
time zone they are those of `datetime`: the constructor checks the ranges of its arguments, and a
field is replaced by another value if the result is a date.

## Main definitions

* `Date`, `Date.toOrdinal` — dates and their ordinals.
* `Date.ofOrdinal` — the date of an ordinal.
* `Date.make`, `DateTime.make` — the constructors.
* `DateTime.replaceYear`, `DateTime.toSecond`, `DateTime.micros`.

## Main results

* `Date.toOrdinal_ofOrdinal` — the date of an ordinal has it.
* `Date.make_eq_some_iff` — what the constructor accepts.
-/

namespace Nodeglow.Calendar

/-- Leap years. -/
def isLeap (y : ℕ) : Bool := y % 4 = 0 ∧ (y % 100 ≠ 0 ∨ y % 400 = 0)

/-- The days of a month. -/
def daysInMonth (y m : ℕ) : ℕ :=
  if m = 2 then if isLeap y then 29 else 28
  else if m ∈ [4, 6, 9, 11] then 30
  else 31

/-- The days before a year. -/
def daysBeforeYear (y : ℕ) : ℕ := (y - 1) * 365 + (y - 1) / 4 - (y - 1) / 100 + (y - 1) / 400

/-- The days of a year before a month. -/
def daysBeforeMonth (y m : ℕ) : ℕ := ((List.range (m - 1)).map fun k => daysInMonth y (k + 1)).sum

/-- The last ordinal. -/
def maxOrdinal : ℕ := 3652059

/-- A date. -/
@[ext]
structure Date where
  year : ℕ
  month : ℕ
  day : ℕ
  one_le_year : 1 ≤ year
  year_le : year ≤ 9999
  one_le_month : 1 ≤ month
  month_le : month ≤ 12
  one_le_day : 1 ≤ day
  day_le : day ≤ daysInMonth year month

/-- `date.toordinal`. -/
def Date.toOrdinal (d : Date) : ℕ := daysBeforeYear d.year + daysBeforeMonth d.year d.month + d.day

/-- The year of an ordinal: the last one with fewer days before it. -/
def yearOf (n : ℕ) : ℕ := Nat.findGreatest (fun y => daysBeforeYear y < n) 9999

/-- The month of a day of a year. -/
def monthOf (y r : ℕ) : ℕ := Nat.findGreatest (fun m => daysBeforeMonth y m < r) 12

section Ordinals

variable {y m n r : ℕ}

theorem daysBeforeMonth_thirteen (y : ℕ) :
    daysBeforeMonth y 13 = if isLeap y then 366 else 365 := by
  cases hleap : isLeap y <;> simp [daysBeforeMonth, daysInMonth, List.range_succ, hleap]

/-- The days of a year. -/
theorem daysBeforeYear_succ (hy : 1 ≤ y) :
    daysBeforeYear (y + 1) = daysBeforeYear y + daysBeforeMonth y 13 := by
  have hleap : (isLeap y = true) ↔ y % 4 = 0 ∧ (y % 100 ≠ 0 ∨ y % 400 = 0) := by simp [isLeap]
  rw [daysBeforeMonth_thirteen, daysBeforeYear, daysBeforeYear, Nat.add_sub_cancel]
  have h4 : y / 4 = (y - 1) / 4 + if y % 4 = 0 then 1 else 0 := by split_ifs <;> omega
  have h100 : y / 100 = (y - 1) / 100 + if y % 100 = 0 then 1 else 0 := by split_ifs <;> omega
  have h400 : y / 400 = (y - 1) / 400 + if y % 400 = 0 then 1 else 0 := by split_ifs <;> omega
  have hle : (y - 1) / 100 ≤ (y - 1) / 4 := by omega
  rw [h4, h100, h400]
  simp only [hleap]
  split_ifs <;> omega

theorem daysBeforeMonth_succ (hm : 1 ≤ m) :
    daysBeforeMonth y (m + 1) = daysBeforeMonth y m + daysInMonth y m := by
  obtain ⟨k, rfl⟩ : ∃ k, m = k + 1 := ⟨m - 1, by omega⟩
  simp [daysBeforeMonth, List.range_succ]

theorem daysBeforeYear_monotone : Monotone daysBeforeYear := by
  refine monotone_nat_of_le_succ fun y => ?_
  cases y with
  | zero => decide
  | succ y =>
    rw [daysBeforeYear_succ (Nat.le_add_left _ _)]
    exact Nat.le_add_right _ _

theorem daysBeforeMonth_monotone (y : ℕ) : Monotone (daysBeforeMonth y) := by
  refine monotone_nat_of_le_succ fun m => ?_
  cases m with
  | zero => exact Nat.zero_le _
  | succ m =>
    rw [daysBeforeMonth_succ (Nat.le_add_left _ _)]
    exact Nat.le_add_right _ _

/-- The year of an ordinal, and the day of that year. -/
theorem yearOf_spec (hn : 1 ≤ n) (hmax : n ≤ maxOrdinal) : 1 ≤ yearOf n ∧ yearOf n ≤ 9999 ∧
    daysBeforeYear (yearOf n) < n ∧ n ≤ daysBeforeYear (yearOf n) + daysBeforeMonth (yearOf n) 13 := by
  have hfirst : daysBeforeYear 1 < n := hn
  have hle : 1 ≤ yearOf n := Nat.le_findGreatest (by decide) hfirst
  have hlt : daysBeforeYear (yearOf n) < n :=
    Nat.findGreatest_spec (P := fun y => daysBeforeYear y < n) (show 1 ≤ 9999 by decide) hfirst
  have hyear : yearOf n ≤ 9999 := Nat.findGreatest_le 9999
  refine ⟨hle, hyear, hlt, ?_⟩
  rw [← daysBeforeYear_succ hle]
  rcases hyear.lt_or_eq with hyear | hyear
  · exact Nat.not_lt.mp (Nat.findGreatest_is_greatest (P := fun y => daysBeforeYear y < n)
      (Nat.lt_succ_self _) hyear)
  · rw [hyear]
    exact hmax

theorem monthOf_spec (hr : 1 ≤ r) (hmax : r ≤ daysBeforeMonth y 13) : 1 ≤ monthOf y r ∧
    monthOf y r ≤ 12 ∧ daysBeforeMonth y (monthOf y r) < r ∧
      r ≤ daysBeforeMonth y (monthOf y r) + daysInMonth y (monthOf y r) := by
  have hfirst : daysBeforeMonth y 1 < r := hr
  have hle : 1 ≤ monthOf y r := Nat.le_findGreatest (by decide) hfirst
  have hlt : daysBeforeMonth y (monthOf y r) < r :=
    Nat.findGreatest_spec (P := fun m => daysBeforeMonth y m < r) (show 1 ≤ 12 by decide) hfirst
  have hmonth : monthOf y r ≤ 12 := Nat.findGreatest_le 12
  refine ⟨hle, hmonth, hlt, ?_⟩
  rw [← daysBeforeMonth_succ hle]
  rcases hmonth.lt_or_eq with hmonth | hmonth
  · exact Nat.not_lt.mp (Nat.findGreatest_is_greatest (P := fun m => daysBeforeMonth y m < r)
      (Nat.lt_succ_self _) hmonth)
  · rwa [hmonth]

end Ordinals

/-- `date.fromordinal`. -/
def Date.ofOrdinal (n : ℕ) (hn : 1 ≤ n) (hmax : n ≤ maxOrdinal) : Date :=
  have hyear := yearOf_spec hn hmax
  have hmonth := monthOf_spec (y := yearOf n) (r := n - daysBeforeYear (yearOf n)) (by omega)
    (by omega)
  { year := yearOf n
    month := monthOf (yearOf n) (n - daysBeforeYear (yearOf n))
    day := n - daysBeforeYear (yearOf n) -
      daysBeforeMonth (yearOf n) (monthOf (yearOf n) (n - daysBeforeYear (yearOf n)))
    one_le_year := hyear.1
    year_le := hyear.2.1
    one_le_month := hmonth.1
    month_le := hmonth.2.1
    one_le_day := by omega
    day_le := by omega }

theorem Date.toOrdinal_le (d : Date) : d.toOrdinal ≤ maxOrdinal :=
  calc d.toOrdinal
    _ ≤ daysBeforeYear d.year + (daysBeforeMonth d.year d.month + daysInMonth d.year d.month) := by
      have hday := d.day_le
      rw [toOrdinal]
      omega
    _ = daysBeforeYear d.year + daysBeforeMonth d.year (d.month + 1) := by
      rw [daysBeforeMonth_succ d.one_le_month]
    _ ≤ daysBeforeYear d.year + daysBeforeMonth d.year 13 :=
      Nat.add_le_add_left (daysBeforeMonth_monotone _ (Nat.succ_le_succ d.month_le)) _
    _ = daysBeforeYear (d.year + 1) := (daysBeforeYear_succ d.one_le_year).symm
    _ ≤ daysBeforeYear 10000 := daysBeforeYear_monotone (Nat.succ_le_succ d.year_le)

/-- The year of an ordinal is at least one with fewer days before it. -/
theorem Date.le_year_ofOrdinal {y n : ℕ} (hn : 1 ≤ n) (hmax : n ≤ maxOrdinal) (hy : y ≤ 9999)
    (h : daysBeforeYear y < n) : y ≤ (ofOrdinal n hn hmax).year :=
  Nat.le_findGreatest hy h

/-- **The date of an ordinal** has it. -/
theorem Date.toOrdinal_ofOrdinal (n : ℕ) (hn : 1 ≤ n) (hmax : n ≤ maxOrdinal) :
    (ofOrdinal n hn hmax).toOrdinal = n := by
  have hyear := yearOf_spec hn hmax
  have hmonth := monthOf_spec (y := yearOf n) (r := n - daysBeforeYear (yearOf n)) (by omega)
    (by omega)
  simp only [toOrdinal, ofOrdinal]
  omega

/-! ### Date and time -/

/-- `date(year, month, day)`; `none` is a `ValueError`. -/
def Date.make (year month day : ℕ) : Option Date :=
  if h : (1 ≤ year ∧ year ≤ 9999) ∧ (1 ≤ month ∧ month ≤ 12) ∧
      1 ≤ day ∧ day ≤ daysInMonth year month then
    some ⟨year, month, day, h.1.1, h.1.2, h.2.1.1, h.2.1.2, h.2.2.1, h.2.2.2⟩
  else none

/-- A date and a time of day. -/
@[ext]
structure DateTime where
  date : Date
  hour : ℕ
  minute : ℕ
  second : ℕ
  microsecond : ℕ
  hour_lt : hour < 24
  minute_lt : minute < 60
  second_lt : second < 60
  microsecond_lt : microsecond < 1000000

theorem zero_microsecond_lt : 0 < 1000000 := by decide

/-- `datetime(year, month, day, hour, minute, second)`; `none` is a `ValueError`. -/
def DateTime.make (year month day hour minute second : ℕ) : Option DateTime :=
  (Date.make year month day).bind fun date =>
    if h : hour < 24 ∧ minute < 60 ∧ second < 60 then
      some ⟨date, hour, minute, second, 0, h.1, h.2.1, h.2.2, zero_microsecond_lt⟩
    else none

/-- `dt.replace(year=year)`; `none` is a `ValueError`. -/
def DateTime.replaceYear (t : DateTime) (year : ℕ) : Option DateTime :=
  (Date.make year t.date.month t.date.day).map fun date => { t with date := date }

/-- The time without its part of a second. -/
def DateTime.toSecond (t : DateTime) : DateTime :=
  { t with microsecond := 0, microsecond_lt := zero_microsecond_lt }

/-- The microseconds since the day before the first of January of the year one. -/
def DateTime.micros (t : DateTime) : ℕ :=
  ((((t.date.toOrdinal * 24 + t.hour) * 60 + t.minute) * 60) + t.second) * 1000000 + t.microsecond

/-- The 29th of February. -/
def Date.IsLeapDay (d : Date) : Prop := d.month = 2 ∧ d.day = 29

instance (d : Date) : Decidable d.IsLeapDay := inferInstanceAs (Decidable (_ ∧ _))

/-- **What the constructor accepts.** -/
theorem Date.make_eq_some_iff {d : Date} {year month day : ℕ} :
    Date.make year month day = some d ↔ d.year = year ∧ d.month = month ∧ d.day = day := by
  rw [Date.make]
  constructor
  · intro h
    split_ifs at h
    obtain rfl := Option.some.inj h
    exact ⟨rfl, rfl, rfl⟩
  · rintro ⟨rfl, rfl, rfl⟩
    rw [dif_pos ⟨⟨d.one_le_year, d.year_le⟩, ⟨d.one_le_month, d.month_le⟩, d.one_le_day, d.day_le⟩]

theorem Date.day_le_thirtyOne (d : Date) : d.day ≤ 31 := by
  refine d.day_le.trans ?_
  rw [daysInMonth]
  split_ifs <;> decide

/-- Every other day of a year is a day of any year. -/
theorem day_le_daysInMonth {y y' m day : ℕ} (h : day ≤ daysInMonth y m)
    (hleap : ¬(m = 2 ∧ day = 29)) :
    day ≤ daysInMonth y' m := by
  by_cases hm : m = 2
  · subst hm
    have hne : day ≠ 29 := fun hday => hleap ⟨rfl, hday⟩
    simp only [daysInMonth, if_true] at h ⊢
    split_ifs at h ⊢ <;> omega
  · simpa only [daysInMonth, if_neg hm] using h

/-- The same day of another year. -/
theorem Date.exists_make (d : Date) (hleap : ¬d.IsLeapDay) {year : ℕ} (hlow : 1 ≤ year)
    (hhigh : year ≤ 9999) :
    ∃ d', Date.make year d.month d.day = some d' ∧
      d'.year = year ∧ d'.month = d.month ∧ d'.day = d.day :=
  ⟨⟨year, d.month, d.day, hlow, hhigh, d.one_le_month, d.month_le, d.one_le_day,
    day_le_daysInMonth d.day_le hleap⟩, Date.make_eq_some_iff.mpr ⟨rfl, rfl, rfl⟩, rfl, rfl, rfl⟩

/-- A year without a 29th of February. -/
theorem Date.make_leapDay {year month day : ℕ} (hmonth : month = 2) (hday : day = 29)
    (hyear : isLeap year = false) : Date.make year month day = none := by
  subst hmonth hday
  have hnot : ¬29 ≤ daysInMonth year 2 := by simp [daysInMonth, hyear]
  rw [Date.make, dif_neg fun h => hnot h.2.2.2]

theorem DateTime.make_of_date {d : Date} {year month day hour minute second : ℕ}
    (hdate : Date.make year month day = some d) (hhour : hour < 24) (hminute : minute < 60)
    (hsecond : second < 60) :
    DateTime.make year month day hour minute second =
      some ⟨d, hour, minute, second, 0, hhour, hminute, hsecond, by decide⟩ := by
  rw [make, hdate]
  exact dif_pos ⟨hhour, hminute, hsecond⟩

end Nodeglow.Calendar
