import Mathlib.Data.Int.ConditionallyCompleteOrder
import Mathlib.Order.ConditionallyCompleteLattice.Basic
import Nodeglow.Foundation.Stretches

/-!
# Tenant-local schedules

A tenant's digest is sent at an hour of the tenant's clock, every day or on one day of the week. The
latest slot is found on the local clock: the hour is put into the local time, days are taken away,
and the time zone resolves what comes out to an instant. Putting in the hour keeps the fold of the
local time, which tells the two passes of a repeated hour apart; taking away days drops it, also
where no days are taken away.

The local clock need not enter a slot once. Where the hour of the slot is repeated, the schedule is
due in both passes; where it is skipped, the slot lies later than the local clock has it. The
schedule fires once for each slot if and only if the local clock enters every slot once, at the
instant to which the zone resolves it (`fires_iff_entersOnce`). A zone with a fixed offset, such as
UTC, meets the condition, so the weekly digest is sent once a week.

## Main results

* `Schedule.localSlot_spec`, `Schedule.eq_localSlot` — the slot on the local clock.
* `Schedule.fires_iff_entersOnce`.
* `Schedule.entersOnce_of_fixed` — zones with a fixed offset.

Source: `backend/services/tenant_jobs.py`, lines 732–756; `backend/scheduler.py`, lines 1094–1113.
-/

namespace Nodeglow.TenantSlots

/-- Times are microseconds: since 1970 in UTC, or on a local clock. -/
def dayMicros : ℤ := 86400000000

def hourMicros : ℤ := 3600000000

/-- A local time. The fold tells the second pass of a repeated time from the first. -/
@[ext]
structure LocalTime where
  wall : ℤ
  fold : Bool

/-- A time zone: how `fromutc` moves a time in UTC, with the fold, and the `utcoffset` of a local
time. -/
structure Zone where
  offset : ℤ → ℤ
  fold : ℤ → Bool
  utcoffset : ℤ → Bool → ℤ

/-- `astimezone`, from UTC. -/
def Zone.local (z : Zone) (now : ℤ) : LocalTime := ⟨now + z.offset now, z.fold now⟩

/-- `astimezone(timezone.utc)`. -/
def Zone.utc (z : Zone) (t : LocalTime) : ℤ := t.wall - z.utcoffset t.wall t.fold

namespace LocalTime

/-- `replace`, with an hour and zeros after it. -/
def replaceHour (t : LocalTime) (hour : ℕ) : LocalTime :=
  { t with wall := t.wall / dayMicros * dayMicros + hour * hourMicros }

/-- `t - timedelta(days=days)`: the fold of a difference is always 0. -/
def subDays (t : LocalTime) (days : ℤ) : LocalTime := ⟨t.wall - days * dayMicros, false⟩

/-- The latest `hour:00` at or before a local time, on the local clock. -/
def dailySlot (t : LocalTime) (hour : ℕ) : LocalTime :=
  if (t.replaceHour hour).wall > t.wall then (t.replaceHour hour).subDays 1 else t.replaceHour hour

/-- `weekday`: Monday is 0. The first of January 1970 was a Thursday. -/
def weekday (t : LocalTime) : ℤ := (t.wall / dayMicros + 3) % 7

end LocalTime

/-- A tenant-local schedule. -/
structure Schedule where
  zone : Zone
  hour : ℕ
  weekday : Option ℤ
  hour_lt : hour < 24

namespace Schedule

variable (s : Schedule)

/-- The slot of `last_slot`, on the local clock. -/
def localSlot (now : ℤ) : LocalTime :=
  let slot := (s.zone.local now).dailySlot s.hour
  match s.weekday with
  | none => slot
  | some weekday => slot.subDays ((slot.weekday - weekday) % 7)

/-- `last_slot`. -/
def lastSlot (now : ℤ) : ℤ := s.zone.utc (s.localSlot now)

/-- `slot_due`. -/
def slotDue (grace : ℤ) (lastSent : Option ℤ) (now : ℤ) : Bool :=
  let slot := s.lastSlot now
  if now - slot ≥ grace then false
  else match lastSent with
    | none => true
    | some lastSent => lastSent < slot

/-! ### Slots of the local clock -/

/-- From one slot to the next. -/
def period : ℤ := if s.weekday = none then dayMicros else 7 * dayMicros

/-- A local time is that of a slot. -/
def IsSlot (slot : ℤ) : Prop :=
  slot % dayMicros = s.hour * hourMicros ∧
    ∀ weekday ∈ s.weekday, (slot / dayMicros + 3 - weekday) % 7 = 0

/-- The local clock is in the slot: at its time or after it, and before the next. -/
def InSlot (slot now : ℤ) : Prop :=
  slot ≤ (s.zone.local now).wall ∧ (s.zone.local now).wall < slot + s.period

/-- The instant of a slot: every day the fold is that of the local time, on the day of the slot. -/
def slotStart (slot now : ℤ) : ℤ :=
  let sameDay := (s.zone.local now).wall / dayMicros = slot / dayMicros
  s.zone.utc ⟨slot, s.weekday = none && sameDay && s.zone.fold now⟩

/-- **The local clock enters every slot once**: up to an instant in a slot, it has been in the slot
exactly from the instant of the slot on. -/
def EntersOnce : Prop :=
  ∀ slot, s.IsSlot slot → ∀ u, s.InSlot slot u → ∀ v ≤ u, s.InSlot slot v ↔ s.slotStart slot u ≤ v

/-- **The schedule fires once for each slot**: the latest slot is never in the future and never goes
back; and in evaluations one after the other, with the time of sending recorded, it fires exactly
once for each slot in which an evaluation is within the grace. -/
structure Fires : Prop where
  lastSlot_le : ∀ now, s.lastSlot now ≤ now
  monotone : Monotone s.lastSlot
  once : ∀ grace evaluations, InOrder (fun now => (s.localSlot now).wall) evaluations →
    ∀ e ∈ evaluations, e.now - s.lastSlot e.now < grace →
      ((sends (s.slotDue grace) none evaluations).map fun e => (s.localSlot e.now).wall).count
        (s.localSlot e.now).wall = 1

variable {s} {slot now : ℤ}

/-- The latest `hour:00` of a clock, with the fold of the local time on the same day. -/
theorem dailySlot_spec (t : LocalTime) {hour : ℕ} (hhour : hour < 24) :
    ((t.dailySlot hour).wall % dayMicros = hour * hourMicros ∧ (t.dailySlot hour).wall ≤ t.wall ∧
        t.wall < (t.dailySlot hour).wall + dayMicros) ∧
      (t.dailySlot hour).fold =
        (t.wall / dayMicros = (t.dailySlot hour).wall / dayMicros && t.fold) := by
  rw [LocalTime.dailySlot]
  split_ifs with hlater
  · have hday : ¬t.wall / dayMicros = ((t.replaceHour hour).subDays 1).wall / dayMicros := by
      simp only [LocalTime.subDays, LocalTime.replaceHour, dayMicros, hourMicros] at hlater ⊢
      omega
    rw [decide_eq_false hday]
    refine ⟨?_, rfl⟩
    simp only [LocalTime.subDays, LocalTime.replaceHour, dayMicros, hourMicros] at hlater ⊢
    omega
  · have hday : t.wall / dayMicros = (t.replaceHour hour).wall / dayMicros := by
      simp only [LocalTime.replaceHour, dayMicros, hourMicros] at hlater ⊢
      omega
    rw [decide_eq_true hday]
    refine ⟨?_, rfl⟩
    simp only [LocalTime.replaceHour, dayMicros, hourMicros] at hlater ⊢
    omega

/-- The latest day of the week. -/
theorem weekly_spec {last wall : ℤ} (weekday : ℤ) (hlow : last ≤ wall)
    (hhigh : wall < last + dayMicros) :
    let slot := last - ((last / dayMicros + 3) % 7 - weekday) % 7 * dayMicros
    (slot % dayMicros = last % dayMicros ∧ (slot / dayMicros + 3 - weekday) % 7 = 0) ∧
      slot ≤ wall ∧ wall < slot + 7 * dayMicros := by
  unfold dayMicros at *
  simp only
  omega

/-- **The slot on the local clock**: a slot which the local clock is in, with its instant. -/
theorem localSlot_spec (s : Schedule) (now : ℤ) :
    (s.IsSlot (s.localSlot now).wall ∧ s.InSlot (s.localSlot now).wall now) ∧
      s.slotStart (s.localSlot now).wall now = s.lastSlot now := by
  obtain ⟨⟨hmod, hlow, hhigh⟩, hfold⟩ := dailySlot_spec (s.zone.local now) s.hour_lt
  cases hweekday : s.weekday with
  | none =>
    have hslot : s.localSlot now = (s.zone.local now).dailySlot s.hour := by
      rw [localSlot, hweekday]
    rw [InSlot, period, if_pos hweekday, slotStart, lastSlot, hslot]
    refine ⟨⟨⟨hmod, fun w hw => ?_⟩, hlow, hhigh⟩, congrArg s.zone.utc ?_⟩
    · rw [hweekday] at hw
      cases hw
    · exact LocalTime.ext rfl (by simp only [hweekday, hfold]; rfl)
  | some weekday =>
    have hslot : s.localSlot now = ((s.zone.local now).dailySlot s.hour).subDays
        ((((s.zone.local now).dailySlot s.hour).weekday - weekday) % 7) := by
      rw [localSlot, hweekday]
    obtain ⟨⟨hsame, hday⟩, hle, hlt⟩ := weekly_spec weekday hlow hhigh
    have hne : s.weekday ≠ none := by
      rw [hweekday]
      exact Option.some_ne_none weekday
    rw [InSlot, period, if_neg hne, slotStart, lastSlot, hslot]
    refine ⟨⟨⟨hsame.trans hmod, fun w hw => ?_⟩, hle, hlt⟩, congrArg s.zone.utc ?_⟩
    · rw [hweekday] at hw
      obtain rfl := Option.some.inj hw
      exact hday
    · exact LocalTime.ext rfl (by simp only [hweekday]; rfl)

/-- The local clock is in one slot only. -/
theorem eq_localSlot (hslot : s.IsSlot slot) (hin : s.InSlot slot now) :
    slot = (s.localSlot now).wall := by
  obtain ⟨⟨⟨hmod, hdays⟩, hlow, hhigh⟩, -⟩ := localSlot_spec s now
  obtain ⟨hmod', hdays'⟩ := hslot
  obtain ⟨hlow', hhigh'⟩ := hin
  have hsame := hmod.trans hmod'.symm
  cases hweekday : s.weekday with
  | none =>
    rw [period, if_pos hweekday] at hhigh hhigh'
    unfold dayMicros at *
    omega
  | some weekday =>
    have hweek := hdays weekday hweekday
    have hweek' := hdays' weekday hweekday
    have hne : s.weekday ≠ none := by
      rw [hweekday]
      exact Option.some_ne_none weekday
    rw [period, if_neg hne] at hhigh hhigh'
    unfold dayMicros at *
    omega

/-! ### Firing once -/

/-- **The local clock enters every slot once** if and only if the times are cut into stretches by
its slots and their instants. -/
theorem entersOnce_iff :
    s.EntersOnce ↔ Stretches (fun now => (s.localSlot now).wall) s.lastSlot := by
  have hsame (u v : ℤ) :
      s.InSlot (s.localSlot u).wall v ↔ (s.localSlot v).wall = (s.localSlot u).wall := by
    constructor
    · exact fun hin => (eq_localSlot (localSlot_spec s u).1.1 hin).symm
    · intro heq
      rw [← heq]
      exact (localSlot_spec s v).1.2
  constructor
  · intro h u v hvu
    obtain ⟨⟨hslot, hin⟩, hstart⟩ := localSlot_spec s u
    rw [← hsame, ← hstart]
    exact h _ hslot u hin v hvu
  · intro h slot hslot u hin v hvu
    obtain rfl := eq_localSlot hslot hin
    rw [hsame, (localSlot_spec s u).2]
    exact h u v hvu

theorem dueOnce (s : Schedule) (grace : ℤ) :
    DueOnce s.lastSlot (fun now => now - s.lastSlot now < grace) (s.slotDue grace) := by
  intro last now
  unfold slotDue
  by_cases hgrace : now - s.lastSlot now < grace
  · have hnot : ¬now - s.lastSlot now ≥ grace := not_le.mpr hgrace
    simp only [if_neg hnot, and_iff_right hgrace]
    cases last <;> simp
  · have hover : now - s.lastSlot now ≥ grace := not_lt.mp hgrace
    simp only [if_pos hover, hgrace, Bool.false_eq_true, false_and]

/-- **The schedule fires once for each slot** if and only if the local clock enters every slot once,
at the instant to which the zone resolves it. -/
theorem fires_iff_entersOnce (s : Schedule) : s.Fires ↔ s.EntersOnce := by
  rw [entersOnce_iff]
  constructor
  · intro h
    refine stretches_of_count_sends s.dueOnce (fun u v => ?_) h.lastSlot_le h.once
    -- Both are within a grace that is long enough.
    exact ⟨max (u - s.lastSlot u) (v - s.lastSlot v) + 1, by omega, by omega⟩
  · intro h
    exact ⟨h.start_le, h.monotone, fun grace evaluations horder e he hgrace =>
      h.count_sends (s.dueOnce grace) horder he hgrace⟩

/-! ### Time zones -/

/-- **A zone with a fixed offset**, such as UTC, in which the weekly digest is sent. -/
theorem entersOnce_of_fixed {offset : ℤ} (h : s.zone = ⟨fun _ => offset, fun _ => false,
    fun _ _ => offset⟩) : s.EntersOnce := by
  intro slot _ u hin v hvu
  have hwall (t : ℤ) : (s.zone.local t).wall = t + offset := by rw [Zone.local, h]
  have hutc (fold : Bool) : s.zone.utc ⟨slot, fold⟩ = slot - offset := by rw [Zone.utc, h]
  have hnext := hin.2
  rw [hwall] at hnext
  rw [InSlot, hwall, slotStart, hutc]
  omega

end Schedule

/-- The end of summer time in Zurich in 2025: at one o'clock in UTC the clock goes back from three
to two. -/
def summerEnd : ℤ := 1761440400000000

/-- Zurich around that instant. -/
def zurich : Zone where
  offset now := if now < summerEnd then 2 * hourMicros else hourMicros
  fold now := summerEnd ≤ now && now < summerEnd + hourMicros
  utcoffset wall fold :=
    if wall < summerEnd + hourMicros then 2 * hourMicros
    else if wall < summerEnd + 2 * hourMicros then (if fold then hourMicros else 2 * hourMicros)
    else hourMicros

/-- Every day at two. -/
def atTwo : Schedule := ⟨zurich, 2, none, by decide⟩

/-- **The schedule fires twice on that day**: ten minutes after two, and an hour later. -/
theorem not_fires_atTwo : ¬atTwo.Fires := by
  intro h
  have honce := h.once hourMicros
    [⟨summerEnd - 3000000000, summerEnd - 3000000000⟩,
      ⟨summerEnd + 600000000, summerEnd + 600000000⟩]
    ⟨by decide +kernel, by decide +kernel, by decide +kernel⟩ _ List.mem_cons_self
    (by decide +kernel)
  exact absurd honce (by decide +kernel)

end Nodeglow.TenantSlots
