import Mathlib.Data.Nat.Find
import Mathlib.Order.Bounds.Basic
import Nodeglow.Backend.Maintenance.Occurrences

/-!
# The next occurrence of a window

The next occurrence of a recurring window is that of the first admitted day whose start is ahead,
among the local date of now and the seven days after it. The starts that are ahead can lie on other
days only where the clocks are changed across a midnight. When they are put forward from before it
to after it, a start of the evening before is still ahead (`not_findsNext_sample`); when they are
put back from after it to before it, the start of tomorrow can be past, and the next one is eight
days ahead.

## Main results

* `findsNext_iff` — exactly when the earliest occurrence is found.
* `firstInReach_iff_of_ordered` — the condition as one on the changes of the clocks.

Source: `backend/services/maintenance.py`, lines 185–206.
-/

namespace Nodeglow.Maintenance

section Next

variable (zoneInfo : String → Zone) (w : WindowSpec) (startTime : ℕ) (now : ℤ)

/-- The start on a day is ahead. -/
def Ahead (day : ℤ) : Prop :=
  weekday day ∈ w.weekdays ∧ now < (zoneInfo w.tz).instant day startTime

instance : DecidablePred (Ahead zoneInfo w startTime now) := fun day =>
  inferInstanceAs (Decidable (weekday day ∈ w.weekdays ∧ _))

/-- `next_occurrence`. -/
def nextOccurrence : Option (ℤ × ℤ) :=
  if !w.enabled then none
  else match w.kind, w.startsAt, w.endsAt, w.startTime with
    | .once, some startsAt, some endsAt, _ => if now < startsAt then some (startsAt, endsAt) else none
    | .weekly, _, _, some startTime =>
      if w.weekdays = [] ∨ w.durationMinutes ≤ 0 then none
      else
        let zone := zoneInfo w.tz
        let found := (List.range 8).find? fun ahead : ℕ =>
          Ahead zoneInfo w startTime now (zone.localDate now + ahead)
        found.map fun ahead : ℕ =>
          let start := zone.instant (zone.localDate now + ahead) startTime
          (start, start + w.durationMinutes * oneMinute)
    | _, _, _, _ => none

/-- **The earliest occurrence is found**: its start is the least one of those that are ahead, and
there is none only where none is ahead. -/
def FindsNext : Prop :=
  match nextOccurrence zoneInfo w now with
  | some (start, stop) =>
    IsLeast {s | ∃ day, Ahead zoneInfo w startTime now day ∧
      s = (zoneInfo w.tz).instant day startTime} start ∧
      stop = start + w.durationMinutes * oneMinute
  | none => ∀ day, ¬Ahead zoneInfo w startTime now day

/-- **The first start that is ahead is in reach**: it is on one of the eight days from the local
date of now on, on which it is the first one, and no start on another day is ahead of it; or no
start is ahead at all. -/
def FirstInReach : Prop :=
  (∀ day, ¬Ahead zoneInfo w startTime now day) ∨
    ∃ k < 8, Ahead zoneInfo w startTime now ((zoneInfo w.tz).localDate now + (k : ℕ)) ∧
      (∀ j < k, ¬Ahead zoneInfo w startTime now ((zoneInfo w.tz).localDate now + (j : ℕ))) ∧
      ∀ day, day < (zoneInfo w.tz).localDate now ∨ (zoneInfo w.tz).localDate now + (k : ℕ) < day →
        Ahead zoneInfo w startTime now day →
        (zoneInfo w.tz).instant ((zoneInfo w.tz).localDate now + (k : ℕ)) startTime ≤
          (zoneInfo w.tz).instant day startTime

end Next

variable {zoneInfo : String → Zone} {w : WindowSpec} {startTime : ℕ} {now : ℤ}

/-- The first of the eight days whose start is ahead. -/
def IsFirst (zoneInfo : String → Zone) (w : WindowSpec) (startTime : ℕ) (now : ℤ) (k : ℕ) : Prop :=
  k < 8 ∧ Ahead zoneInfo w startTime now ((zoneInfo w.tz).localDate now + k) ∧
    ∀ j < k, ¬Ahead zoneInfo w startTime now ((zoneInfo w.tz).localDate now + (j : ℕ))

/-- What is found for a recurring window. -/
theorem nextOccurrence_cases (hw : Recurring w startTime) :
    (nextOccurrence zoneInfo w now = none ∧ ∀ k < 8,
        ¬Ahead zoneInfo w startTime now ((zoneInfo w.tz).localDate now + (k : ℕ))) ∨
      ∃ k, IsFirst zoneInfo w startTime now k ∧ nextOccurrence zoneInfo w now =
        some ((zoneInfo w.tz).instant ((zoneInfo w.tz).localDate now + k) startTime,
          (zoneInfo w.tz).instant ((zoneInfo w.tz).localDate now + k) startTime +
            w.durationMinutes * oneMinute) := by
  have hdur := Int.not_le.mpr hw.duration_pos
  rw [nextOccurrence, hw.kind, hw.startTime_eq]
  by_cases hne : w.weekdays = []
  · refine .inl ⟨by simp [hw.enabled, hne], fun k _ hahead => ?_⟩
    exact absurd hahead.1 (by simp [hne])
  simp only [hw.enabled, Bool.not_true, Bool.false_eq_true, if_false, hne, hdur, or_self]
  cases hfind : (List.range 8).find? fun ahead : ℕ =>
      decide (Ahead zoneInfo w startTime now ((zoneInfo w.tz).localDate now + ahead)) with
  | none =>
    refine .inl ⟨rfl, fun k hk => ?_⟩
    simpa using List.find?_eq_none.mp hfind k (List.mem_range.mpr hk)
  | some k =>
    obtain ⟨hahead, hk, hbefore⟩ := List.find?_range_eq_some.mp hfind
    refine .inr ⟨k, ⟨List.mem_range.mp hk, of_decide_eq_true hahead, fun j hj => ?_⟩, rfl⟩
    simpa using hbefore j hj

/-- The first of the eight days is one. -/
theorem IsFirst.eq {k k' : ℕ} (h : IsFirst zoneInfo w startTime now k)
    (h' : IsFirst zoneInfo w startTime now k') : k = k' := by
  rcases Nat.lt_trichotomy k k' with hlt | heq | hlt
  · exact absurd h.2.1 (h'.2.2 k hlt)
  · exact heq
  · exact absurd h'.2.1 (h.2.2 k' hlt)

/-- **The earliest occurrence is found** if and only if the first start that is ahead is in reach.
-/
theorem findsNext_iff (hw : Recurring w startTime) :
    FindsNext zoneInfo w startTime now ↔ FirstInReach zoneInfo w startTime now := by
  rw [FindsNext]
  rcases @nextOccurrence_cases zoneInfo _ _ now hw with
    ⟨hnone, hall⟩ | ⟨k, hfirst, hsome⟩
  · rw [hnone]
    refine ⟨.inl, fun hreach => ?_⟩
    rcases hreach with h | ⟨k, hk, hahead, -⟩
    · exact h
    · exact absurd hahead (hall k hk)
  · rw [hsome]
    constructor
    · rintro ⟨⟨-, hleast⟩, -⟩
      exact .inr ⟨k, hfirst.1, hfirst.2.1, hfirst.2.2, fun day _ hahead => hleast ⟨day, hahead, rfl⟩⟩
    · rintro (h | ⟨k', hk', hahead, hbefore, hothers⟩)
      · exact absurd hfirst.2.1 (h _)
      · obtain rfl := hfirst.eq ⟨hk', hahead, hbefore⟩
        refine ⟨⟨⟨_, hahead, rfl⟩, ?_⟩, rfl⟩
        rintro s ⟨day, hday, rfl⟩
        -- A day among the eight is the first one, or not ahead, or after it.
        by_cases hout : day < (zoneInfo w.tz).localDate now ∨
            (zoneInfo w.tz).localDate now + (k : ℕ) < day
        · exact hothers day hout hday
        · rw [not_or, Int.not_lt, Int.not_lt] at hout
          have hj : day = (zoneInfo w.tz).localDate now +
              ((day - (zoneInfo w.tz).localDate now).toNat : ℕ) := by omega
          by_cases heq : (day - (zoneInfo w.tz).localDate now).toNat = k
          · rw [← heq, ← hj]
          · rw [hj] at hday
            exact absurd hday (hbefore _ (by omega))

/-! ### Starts in the order of the days -/

/-- **Where the starts are in the order of the days**, only a change of the clocks around now matters:
the earliest occurrence is in reach if and only if no start of a day before today is still ahead, and
one of the eight days has a start that is ahead, or no day has. -/
theorem firstInReach_iff_of_ordered
    (hordered : ∀ {day day' : ℤ}, day < day' →
      (zoneInfo w.tz).instant day startTime < (zoneInfo w.tz).instant day' startTime) :
    FirstInReach zoneInfo w startTime now ↔ (∀ day, ¬Ahead zoneInfo w startTime now day) ∨
      (∀ day < (zoneInfo w.tz).localDate now, ¬Ahead zoneInfo w startTime now day) ∧
        ∃ k < 8, Ahead zoneInfo w startTime now ((zoneInfo w.tz).localDate now + (k : ℕ)) := by
  refine or_congr_right ⟨?_, ?_⟩
  · rintro ⟨k, hk, hahead, -, hothers⟩
    refine ⟨fun day hday hday' => ?_, k, hk, hahead⟩
    exact absurd (hordered (by omega)) (hothers day (.inl hday) hday').not_gt
  · rintro ⟨hpast, hexists⟩
    obtain ⟨hk, hahead⟩ := Nat.find_spec hexists
    refine ⟨Nat.find hexists, hk, hahead, fun j hj hj' => ?_, fun day hout hday => ?_⟩
    · exact Nat.find_min hexists hj ⟨hj.trans hk, hj'⟩
    · rcases hout with hbefore | hafter
      · exact absurd hday (hpast day hbefore)
      · exact (hordered hafter).le

/-- Some day of the week after a day is a given one. -/
theorem exists_weekday (day : ℤ) {d : ℕ} (hd : d < 7) : ∃ k : ℕ, 1 ≤ k ∧ k < 8 ∧
    weekday (day + k) = d := by
  refine ⟨((d - (day + 3) - 1) % 7).toNat + 1, by omega, by omega, ?_⟩
  rw [weekday]
  omega

/-- **Where the clocks are not changed**, the earliest occurrence is in reach. -/
theorem firstInReach_of_unchanged {zones : String → Offsets} (hw : Recurring w startTime)
    (hday : ∃ d ∈ w.weekdays, d < 7)
    (h : ∀ day, (zones w.tz).startOffset day startTime = (zones w.tz).offset now) :
    FirstInReach (fun tz => (zones tz).zone) w startTime now := by
  obtain ⟨d, hd, hd7⟩ := hday
  have hlt := hw.startTime_lt
  have hordered {day day' : ℤ} (hlt : day < day') :
      (zones w.tz).zone.instant day startTime < (zones w.tz).zone.instant day' startTime := by
    simp only [Offsets.zone, h, oneDay, oneMinute]
    omega
  refine (@firstInReach_iff_of_ordered (fun tz => (zones tz).zone) w startTime now hordered).mpr
    (.inr ⟨fun day hlt hday => ?_, ?_⟩)
  · have hpast : (zones w.tz).zone.instant day startTime ≤ now := by
      simp only [Offsets.zone, h, oneDay, oneMinute] at *
      omega
    exact absurd hday.2 (Int.not_lt.mpr hpast)
  · obtain ⟨k, hk, hk8, hweekday⟩ := exists_weekday ((zones w.tz).zone.localDate now) hd7
    have hahead : now < (zones w.tz).zone.instant ((zones w.tz).zone.localDate now + k) startTime := by
      simp only [Offsets.zone, h, oneDay, oneMinute] at *
      omega
    exact ⟨k, hk8, hweekday ▸ hd, hahead⟩

/-! ### Clocks that are put forward across midnight -/

/-- A zone in which the clocks are put forward from eleven on the day 0 to midnight. -/
def acrossMidnight : Offsets :=
  changedOnce (25 * 60 * oneMinute) (-(120 * oneMinute)) (-(60 * oneMinute))

theorem findsNext_iff_sample :
    FindsNext (fun _ => utc.zone) (thursdays 60 120) 60 0 ↔
      FirstInReach (fun _ => utc.zone) (thursdays 60 120) 60 0 :=
  findsNext_iff (recurring_thursdays (by decide) (by decide))

/-- **The start of the evening before is still ahead**, and the one a week later is found. -/
theorem not_findsNext_sample : Recurring (thursdays 1410 60) 1410 ∧
    ¬FindsNext (fun _ => acrossMidnight.zone) (thursdays 1410 60) 1410 (1510 * oneMinute) := by
  refine ⟨recurring_thursdays (by decide) (by decide), fun h => ?_⟩
  have hnext : nextOccurrence (fun _ => acrossMidnight.zone) (thursdays 1410 60)
      (1510 * oneMinute) = some (acrossMidnight.zone.instant 7 1410,
        acrossMidnight.zone.instant 7 1410 + 60 * oneMinute) := by decide
  rw [FindsNext, hnext] at h
  have hahead : Ahead (fun _ => acrossMidnight.zone) (thursdays 1410 60) 1410 (1510 * oneMinute) 0 := by
    decide
  have hle := h.1.2 ⟨0, hahead, rfl⟩
  exact absurd hle (by decide)

end Nodeglow.Maintenance
