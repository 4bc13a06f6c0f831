import Nodeglow.Backend.Maintenance.Windows

/-!
# Occurrences of a recurring window

A recurring window occurs on each local day with an admitted weekday, from the instant at which the
clocks show its start time and for an absolute duration. Which occurrence is active is looked up in
two ways. `occurrence_at` goes back from the local date of now, one day more than the whole days of
the duration. `occurrences_between` lists the occurrences that start in a span of time.

Both find occurrences only (`occurrences_agree`). The lookup reaches back far enough as long as the
clocks are not changed by much while the window is active: put forward, the local date of now can be
one more day ahead of that of the start, and put back, it can be behind it
(`not_occurrences_agree_sample`). And a span that does not contain the start of an occurrence does
not list it, although it contains now.

The offsets of a time zone are two functions: that of an instant, and that with which the time of
day on a date is read where the clocks show it twice or not at all.

Source: `backend/services/maintenance.py`, lines 156–182 and 209–238.
-/

namespace Nodeglow.Maintenance

/-- A time zone by its offsets from UTC. -/
structure Offsets where
  /-- The offset of an instant. -/
  offset : ℤ → ℤ
  /-- The offset with which a time of day on a date is read. -/
  startOffset : ℤ → ℕ → ℤ

def oneDay : ℤ := 24 * 60 * oneMinute

/-- The local date of an instant, and the instant of a time of day. -/
def Offsets.zone (z : Offsets) : Zone where
  localDate now := (now + z.offset now) / oneDay
  instant day startTime := day * oneDay + startTime * oneMinute - z.startOffset day startTime

/-- An enabled weekly window with a start time and a duration. -/
structure Recurring (w : WindowSpec) (startTime : ℕ) : Prop where
  enabled : w.enabled = true
  kind : w.kind = .weekly
  startTime_eq : w.startTime = some startTime
  startTime_lt : startTime < 24 * 60
  duration_pos : 0 < w.durationMinutes

section Runs

variable (z : Offsets) (w : WindowSpec) (startTime : ℕ)

/-- The start and the end of the occurrence of a day. -/
def occurrence (day : ℤ) : ℤ × ℤ :=
  (z.zone.instant day startTime, z.zone.instant day startTime + w.durationMinutes * oneMinute)

/-- **The occurrence of a day is active.** -/
def Runs (now day : ℤ) : Prop :=
  weekday day ∈ w.weekdays ∧ z.zone.instant day startTime ≤ now ∧
    now < z.zone.instant day startTime + w.durationMinutes * oneMinute

/-- **The clocks are not changed by much** between the start on a day and now: they were not put
back behind the midnight before the start, and not put forward by what is missing from two days to
the start time and the duration beyond whole days. -/
def Steady (now day : ℤ) : Prop :=
  day * oneDay ≤ now + z.offset now ∧
    z.offset now - z.startOffset day startTime ≤
      (2 * (24 * 60) - startTime - w.durationMinutes % (24 * 60)) * oneMinute

/-- **A span contains the start of an occurrence**, is not longer than what it is capped at, and the
offsets at its ends differ by a day at most from the one of the start. -/
def StartsIn (start stop day : ℤ) : Prop :=
  start ≤ z.zone.instant day startTime ∧ stop ≤ start + maxOccurrenceSpanDays * oneDay ∧
    z.offset start - z.startOffset day startTime ≤ oneDay ∧
    z.startOffset day startTime - z.offset stop ≤ oneDay

end Runs

variable {z : Offsets} {zones : String → Offsets} {w : WindowSpec} {startTime : ℕ}
  {now day start stop : ℤ} {o : ℤ × ℤ}

/-! ### The lookup back from now -/

theorem occurrenceOn_eq_some : w.occurrenceOn z.zone startTime now day = some o ↔
    Runs z w startTime now day ∧ o = occurrence z w startTime day := by
  rw [WindowSpec.occurrenceOn]
  split_ifs with h
  · rw [Option.some.injEq]
    exact ⟨fun heq => ⟨h, heq.symm⟩, fun heq => heq.2.symm⟩
  · exact ⟨nofun, fun hruns => absurd hruns.1 h⟩

theorem Runs.weekdays_ne (h : Runs z w startTime now day) : w.weekdays ≠ [] :=
  List.ne_nil_of_mem h.1

/-- The lookup of a recurring window. -/
theorem occurrenceAt_of_recurring (hw : Recurring w startTime) (hne : w.weekdays ≠ []) :
    occurrenceAt (fun tz => (zones tz).zone) w now =
      (List.range ((w.durationMinutes / (24 * 60)).toNat + 1 + 1)).findSome? fun back : ℕ =>
        w.occurrenceOn (zones w.tz).zone startTime now
          ((zones w.tz).zone.localDate now - (back : ℤ)) := by
  have hdur := hw.duration_pos
  rw [occurrenceAt, hw.kind, hw.startTime_eq]
  simp [hw.enabled, hne, Int.not_le.mpr hdur]

/-- **What is found** is an active occurrence. -/
theorem exists_runs_of_occurrenceAt (hw : Recurring w startTime)
    (h : occurrenceAt (fun tz => (zones tz).zone) w now = some o) :
    ∃ day, Runs (zones w.tz) w startTime now day ∧ o = occurrence (zones w.tz) w startTime day := by
  by_cases hne : w.weekdays = []
  · rw [occurrenceAt, hw.kind, hw.startTime_eq] at h
    simp [hw.enabled, hne] at h
  rw [occurrenceAt_of_recurring hw hne] at h
  obtain ⟨back, -, hback⟩ := List.exists_of_findSome?_eq_some h
  exact ⟨_, occurrenceOn_eq_some.mp hback⟩

/-- **The lookup reaches back far enough** while the clocks are not changed by much. -/
theorem localDate_sub_le (hw : Recurring w startTime) (hruns : Runs z w startTime now day)
    (hsteady : Steady z w startTime now day) :
    day ≤ z.zone.localDate now ∧
      z.zone.localDate now - day ≤ w.durationMinutes / (24 * 60) + 1 := by
  obtain ⟨-, hstart, hstop⟩ := hruns
  obtain ⟨hback, hforward⟩ := hsteady
  have hlt := hw.startTime_lt
  have hpos := hw.duration_pos
  simp only [Offsets.zone, oneDay, oneMinute] at *
  generalize z.offset now = off at *
  generalize z.startOffset day startTime = startOff at *
  generalize w.durationMinutes = duration at *
  omega

theorem isSome_occurrenceAt (hw : Recurring w startTime)
    (hruns : Runs (zones w.tz) w startTime now day)
    (hsteady : Steady (zones w.tz) w startTime now day) :
    (occurrenceAt (fun tz => (zones tz).zone) w now).isSome = true := by
  obtain ⟨hle, hback⟩ := localDate_sub_le hw hruns hsteady
  have hpos := hw.duration_pos
  rw [occurrenceAt_of_recurring hw hruns.weekdays_ne, List.findSome?_isSome_iff]
  refine ⟨((zones w.tz).zone.localDate now - day).toNat, List.mem_range.mpr (by omega), ?_⟩
  have hday : (zones w.tz).zone.localDate now -
      (((zones w.tz).zone.localDate now - day).toNat : ℤ) = day := by omega
  rw [hday, occurrenceOn_eq_some.mpr ⟨hruns, rfl⟩]
  rfl

/-- Where the clocks were not changed since the start, the condition holds. -/
theorem steady_of_unchanged (hw : Recurring w startTime) (hruns : Runs z w startTime now day)
    (h : z.offset now = z.startOffset day startTime) : Steady z w startTime now day := by
  obtain ⟨-, hstart, -⟩ := hruns
  have hlt := hw.startTime_lt
  have hpos := hw.duration_pos
  simp only [Steady, Offsets.zone, oneDay, oneMinute] at *
  omega

/-! ### The list of a span -/

/-- The start of a span, which is capped. -/
def capped (start stop : ℤ) : ℤ := max start (stop - maxOccurrenceSpanDays * (24 * 60) * oneMinute)

/-- **The list** of a recurring window. -/
theorem mem_occurrencesBetween (hw : Recurring w startTime) (hne : w.weekdays ≠ []) :
    o ∈ occurrencesBetween (fun tz => (zones tz).zone) w start stop ↔
      start < stop ∧ ∃ day, weekday day ∈ w.weekdays ∧ o = occurrence (zones w.tz) w startTime day ∧
        (capped start stop ≤ o.1 ∧ o.1 < stop) ∧
        (zones w.tz).zone.localDate (capped start stop) - 1 ≤ day ∧
        day ≤ (zones w.tz).zone.localDate stop + 1 := by
  have hdur := Int.not_le.mpr hw.duration_pos
  rw [occurrencesBetween, hw.kind, hw.startTime_eq]
  by_cases hspan : stop ≤ start
  · simp [hspan, Int.not_lt.mpr hspan]
  rw [if_neg (by simp [hw.enabled, hspan])]
  simp only [hne, hdur, or_self, if_false, List.mem_filterMap, List.mem_range]
  rw [← capped]
  generalize (zones w.tz).zone.localDate (capped start stop) - 1 = first
  generalize (zones w.tz).zone.localDate stop + 1 = last
  refine ⟨?_, ?_⟩
  · rintro ⟨i, hi, hsome⟩
    split_ifs at hsome with hday
    obtain rfl := Option.some.inj hsome
    exact ⟨Int.not_le.mp hspan, first + i, hday.1, rfl, hday.2, by omega, by omega⟩
  · rintro ⟨-, day, hday, rfl, hin, hfirst, hlast⟩
    have hi : first + ((day - first).toNat : ℤ) = day := by omega
    refine ⟨(day - first).toNat, by omega, ?_⟩
    rw [hi, if_pos ⟨hday, hin⟩]
    rfl

/-- **What is listed** and contains now is an active occurrence. -/
theorem exists_runs_of_mem (hw : Recurring w startTime)
    (h : o ∈ occurrencesBetween (fun tz => (zones tz).zone) w start stop) (hstart : o.1 ≤ now)
    (hstop : now < o.2) :
    ∃ day, Runs (zones w.tz) w startTime now day ∧ o = occurrence (zones w.tz) w startTime day := by
  by_cases hne : w.weekdays = []
  · rw [occurrencesBetween, hw.kind, hw.startTime_eq] at h
    by_cases hspan : !w.enabled ∨ stop ≤ start
    · rw [if_pos hspan] at h
      exact absurd h List.not_mem_nil
    · rw [if_neg hspan] at h
      exact absurd h (by simp [hne])
  obtain ⟨-, day, hday, rfl, -⟩ := (mem_occurrencesBetween hw hne).mp h
  exact ⟨day, ⟨hday, hstart, hstop⟩, rfl⟩

/-- **An active occurrence** is listed for a span that contains its start and now. -/
theorem mem_of_runs (hw : Recurring w startTime) (hruns : Runs (zones w.tz) w startTime now day)
    (hnow : now < stop) (hin : StartsIn (zones w.tz) startTime start stop day) :
    occurrence (zones w.tz) w startTime day ∈
      occurrencesBetween (fun tz => (zones tz).zone) w start stop := by
  obtain ⟨hday, hstart, hstop⟩ := hruns
  obtain ⟨hfrom, hcap, hfirst, hlast⟩ := hin
  have hcapped : capped start stop = start := by
    simp only [capped, oneDay, oneMinute, maxOccurrenceSpanDays] at hcap ⊢
    omega
  refine (mem_occurrencesBetween hw (List.ne_nil_of_mem hday)).mpr
    ⟨by omega, day, hday, rfl, ?_, ?_⟩
  · rw [hcapped]
    exact ⟨hfrom, Int.lt_of_le_of_lt hstart hnow⟩
  · rw [hcapped]
    simp only [Offsets.zone, oneDay, oneMinute] at *
    generalize (zones w.tz).offset start = offStart at *
    generalize (zones w.tz).offset stop = offStop at *
    generalize (zones w.tz).startOffset day startTime = startOff at *
    have hlt := hw.startTime_lt
    omega

/-- **The two lookups.** What they find is active; the lookup back from now finds an active
occurrence if one has seen no large change of the clocks; and it agrees with the list of a span that
contains the start of the active occurrences and now. -/
theorem occurrences_agree (hw : Recurring w startTime) :
    (∀ o, occurrenceAt (fun tz => (zones tz).zone) w now = some o →
      ∃ day, Runs (zones w.tz) w startTime now day ∧
        o = occurrence (zones w.tz) w startTime day) ∧
    (∀ day, Runs (zones w.tz) w startTime now day → Steady (zones w.tz) w startTime now day →
      (occurrenceAt (fun tz => (zones tz).zone) w now).isSome = true) ∧
    ∀ start stop, now < stop →
      (∀ day, Runs (zones w.tz) w startTime now day →
        Steady (zones w.tz) w startTime now day ∧
          StartsIn (zones w.tz) startTime start stop day) →
      ((∃ o ∈ occurrencesBetween (fun tz => (zones tz).zone) w start stop,
          o.1 ≤ now ∧ now < o.2) ↔
        (occurrenceAt (fun tz => (zones tz).zone) w now).isSome = true) := by
  refine ⟨fun o => exists_runs_of_occurrenceAt hw, fun day => isSome_occurrenceAt hw,
    fun start stop hnow hall => ⟨?_, fun hsome => ?_⟩⟩
  · rintro ⟨o, ho, hstart, hstop⟩
    obtain ⟨day, hruns, -⟩ := exists_runs_of_mem hw ho hstart hstop
    exact isSome_occurrenceAt hw hruns (hall day hruns).1
  · obtain ⟨o, ho⟩ := Option.isSome_iff_exists.mp hsome
    obtain ⟨day, hruns, -⟩ := exists_runs_of_occurrenceAt hw ho
    exact ⟨_, mem_of_runs hw hruns hnow (hall day hruns).2, hruns.2⟩

/-! ### An hour of change -/

/-- A zone in which the clocks are changed once. A time of day that they do not show, or show twice,
is read with the offset before. -/
def changedOnce (change before after : ℤ) : Offsets where
  offset now := if now < change then before else after
  startOffset day startTime :=
    if day * oneDay + startTime * oneMinute < change + max before after then before else after

/-- A window on Thursdays, as is the day 0. -/
def thursdays (startTime : ℕ) (durationMinutes : ℤ) : WindowSpec where
  id := 1
  name := "thursdays"
  kind := .weekly
  enabled := true
  weekdays := [3]
  startTime := some startTime
  durationMinutes := durationMinutes
  startsAt := none
  endsAt := none
  tz := "zone"
  allHosts := true
  hostIds := []

theorem recurring_thursdays {startTime : ℕ} {durationMinutes : ℤ} (hlt : startTime < 24 * 60)
    (hpos : 0 < durationMinutes) : Recurring (thursdays startTime durationMinutes) startTime :=
  ⟨rfl, rfl, rfl, hlt, hpos⟩

/-- UTC. -/
def utc : Offsets := changedOnce 0 0 0

/-- A zone in which the clocks are put forward by an hour, at two o'clock on the day 1. -/
def forward : Offsets := changedOnce (oneDay + 120 * oneMinute) 0 (60 * oneMinute)

theorem occurrences_agree_sample :
    (∃ o ∈ occurrencesBetween (fun _ => utc.zone) (thursdays 60 120) 0 (100 * oneMinute),
        o.1 ≤ 90 * oneMinute ∧ 90 * oneMinute < o.2) ↔
      (occurrenceAt (fun _ => utc.zone) (thursdays 60 120) (90 * oneMinute)).isSome = true := by
  have hw : Recurring (thursdays 60 120) 60 := recurring_thursdays (by decide) (by decide)
  refine (@occurrences_agree (fun _ => utc) _ _ (90 * oneMinute) hw).2.2 0 (100 * oneMinute)
    (by decide) fun day hruns => ?_
  have hday : day = 0 := by
    obtain ⟨-, hstart, hstop⟩ := hruns
    simp only [Offsets.zone, utc, changedOnce, thursdays, oneDay, oneMinute, ite_self] at hstart hstop
    omega
  subst hday
  exact ⟨steady_of_unchanged hw hruns rfl, by decide, by decide, by decide, by decide⟩

/-- **An active occurrence is not listed** for a span that starts after it. **And it is not found**
on the second day of a window of 23 hours and 59 minutes that began at half past eleven, when the
clocks were put forward on the day between. -/
theorem not_occurrences_agree_sample :
    ((occurrenceAt (fun _ => utc.zone) (thursdays 60 120) (90 * oneMinute)).isSome = true ∧
      ¬∃ o ∈ occurrencesBetween (fun _ => utc.zone) (thursdays 60 120) (80 * oneMinute)
          (100 * oneMinute), o.1 ≤ 90 * oneMinute ∧ 90 * oneMinute < o.2) ∧
    (Recurring (thursdays 1410 1439) 1410 ∧
      Runs forward (thursdays 1410 1439) 1410 (2840 * oneMinute) 0 ∧
      occurrenceAt (fun _ => forward.zone) (thursdays 1410 1439) (2840 * oneMinute) = none) := by
  refine ⟨⟨by decide, by decide⟩, recurring_thursdays (by decide) (by decide), ?_, by decide⟩
  unfold Runs
  decide

end Nodeglow.Maintenance
