import Mathlib.Data.Rat.Floor
import Nodeglow.Foundation.Successive

/-!
# The cadence of tenant jobs

A job ticks at the interval of the fastest tenant, and a tenant is due once its own interval has
elapsed since its last run, less a tolerance: the jitter of the scheduler, and at most half a tick.
With exactly one active tenant every tick runs it.

With ticks at exact multiples of the period a tenant is due after `dueTicks` ticks: the interval
less the tolerance, rounded up to ticks. It runs at its own pace if this is not less than the
interval, which depends on the remainder of the interval by the tick (`Rounds`), and if no tick in
between finds it the only tenant.

## Main results

* `TickRun.runs_iff` — when the tenant runs.
* `TickRun.paced_iff` — the tenant runs at its own pace.

Source: `backend/services/tenant_jobs.py`, lines 323–359 and 554–600.
-/

namespace Nodeglow.TenantCadence

/-- Scheduler jitter a cadence check tolerates, in seconds. -/
def cadenceJitter : ℚ := 2

/-- `TenantCadence`: when each tenant last ran a job, and the tick of each job. -/
structure Cadence (Job Tenant : Type) where
  last : Job × Tenant → Option ℚ
  ticks : Job → Option ℚ

/-- Every tenant's interval, and the default of the setting. -/
structure Intervals (Tenant : Type) where
  interval : Tenant → ℚ
  default : ℚ

/-- What a cadence check tolerates at a tick. -/
def tolerance (tick : ℚ) : ℚ := min cadenceJitter (tick / 2)

variable {Job Tenant : Type} [DecidableEq Job] [DecidableEq Tenant]

namespace Cadence

variable (c : Cadence Job Tenant)

omit [DecidableEq Job] [DecidableEq Tenant] in
def due (now : ℚ) (job : Job) (tenant : Tenant) (interval : ℚ) (tick : Option ℚ) : Bool :=
  match c.last (job, tenant) with
  | none => true
  | some last =>
    now - last ≥ interval - tolerance (tick.getD ((c.ticks job).getD interval))

def mark (now : ℚ) (job : Job) (tenant : Tenant) : Cadence Job Tenant :=
  { c with last := Function.update c.last (job, tenant) (some now) }

/-- The tick of `fleet_job` with several tenants, or without one. -/
def fleetTick (job : Job) (spec : Intervals Tenant) (tenantIds : List Tenant) : ℚ :=
  ((c.ticks job).filter (· ≠ 0)).getD ((tenantIds.map spec.interval).min?.getD spec.default)

/-- `fleet_job` with several tenants, or without one: those which are due run. -/
def fleetPass (now : ℚ) (job : Job) (spec : Option (Intervals Tenant)) (tenantIds : List Tenant) :
    Cadence Job Tenant × List Tenant :=
  match spec with
  | none => (c, tenantIds)
  | some spec =>
    let tick := c.fleetTick job spec tenantIds
    let due := tenantIds.filter fun t => c.due now job t (spec.interval t) (some tick)
    (due.foldl (fun c t => c.mark now job t) c, due)

/-- `fleet_job`: the tenants that a tick runs. -/
def fleetJob (now : ℚ) (job : Job) (spec : Option (Intervals Tenant)) (tenantIds : List Tenant) :
    Cadence Job Tenant × List Tenant :=
  match tenantIds with
  | [tenant] =>
    -- The tick is this tenant's own interval: always due.
    (match spec with
      | none => c
      | some _ => c.mark now job tenant,
    [tenant])
  | tenantIds => c.fleetPass now job spec tenantIds

/-! ### What one tick does -/

variable {c} {now : ℚ} {job : Job} {tenant : Tenant} {spec : Intervals Tenant}
  {tenantIds : List Tenant}

theorem foldl_mark_ticks (l : List Tenant) :
    (l.foldl (fun c t => c.mark now job t) c).ticks = c.ticks := by
  induction l generalizing c with
  | nil => rfl
  | cons t l ih => exact ih

theorem foldl_mark_last (l : List Tenant) :
    (l.foldl (fun c t => c.mark now job t) c).last (job, tenant) =
      if tenant ∈ l then some now else c.last (job, tenant) := by
  induction l generalizing c with
  | nil => rfl
  | cons t l ih =>
    rw [List.foldl_cons, ih]
    by_cases hmem : tenant ∈ l
    · rw [if_pos hmem, if_pos (List.mem_cons_of_mem t hmem)]
    · rw [if_neg hmem]
      by_cases heq : tenant = t
      · subst heq
        rw [if_pos List.mem_cons_self]
        exact Function.update_self ..
      · rw [if_neg (List.not_mem_cons_of_ne_of_not_mem heq hmem)]
        exact Function.update_of_ne (fun h => heq (Prod.mk.inj h).2) ..

variable (c now job spec tenantIds) in
/-- A tick with one tenant, and any other. -/
theorem fleetJob_cases :
    (∃ t, tenantIds = [t] ∧ c.fleetJob now job (some spec) tenantIds = (c.mark now job t, [t])) ∨
      (∀ t, tenantIds ≠ [t]) ∧
        c.fleetJob now job (some spec) tenantIds = c.fleetPass now job (some spec) tenantIds := by
  match tenantIds with
  | [t] => exact .inl ⟨t, rfl, rfl⟩
  | [] => exact .inr ⟨fun t => List.cons_ne_nil t [] ∘ Eq.symm, rfl⟩
  | t :: u :: l => exact .inr ⟨fun v h => List.cons_ne_nil u l (List.cons.inj h).2, rfl⟩

theorem fleetJob_ticks : (c.fleetJob now job (some spec) tenantIds).1.ticks = c.ticks := by
  obtain ⟨t, -, heq⟩ | ⟨-, heq⟩ := fleetJob_cases c now job spec tenantIds
  · rw [heq]
    rfl
  · rw [heq]
    exact foldl_mark_ticks _

/-- A tenant that runs is marked. -/
theorem fleetJob_last :
    (c.fleetJob now job (some spec) tenantIds).1.last (job, tenant) =
      if tenant ∈ (c.fleetJob now job (some spec) tenantIds).2 then some now
      else c.last (job, tenant) := by
  obtain ⟨t, -, heq⟩ | ⟨-, heq⟩ := fleetJob_cases c now job spec tenantIds
  · rw [heq]
    exact foldl_mark_last [t]
  · rw [heq]
    exact foldl_mark_last _

/-- An active tenant runs if it is the only one, or due. -/
theorem mem_fleetJob (hmem : tenant ∈ tenantIds) :
    tenant ∈ (c.fleetJob now job (some spec) tenantIds).2 ↔
      tenantIds = [tenant] ∨
        c.due now job tenant (spec.interval tenant) (some (c.fleetTick job spec tenantIds)) := by
  obtain ⟨t, rfl, heq⟩ | ⟨hne, heq⟩ := fleetJob_cases c now job spec tenantIds
  · obtain rfl := List.mem_singleton.mp hmem
    rw [heq]
    exact ⟨fun _ => .inl rfl, fun _ => hmem⟩
  · rw [heq, fleetPass, List.mem_filter, and_iff_right hmem, or_iff_right (hne tenant)]

end Cadence

/-! ### The ticks of a job -/

/-- The ticks of a job at exact multiples of the period. Every tick finds the tenant active, and its
interval is always the same; the other tenants come and go, and their intervals change. -/
structure TickRun (Job Tenant : Type) where
  job : Job
  tenant : Tenant
  /-- The clock at the first tick. -/
  start : ℚ
  /-- The tick period. -/
  period : ℚ
  /-- The interval of the tenant. -/
  interval : ℚ
  /-- The cadence before the first tick. -/
  initial : Cadence Job Tenant
  spec : ℕ → Intervals Tenant
  tenantIds : ℕ → List Tenant
  period_pos : 0 < period
  /-- An interval is not less than the floor, which is at least one second. -/
  interval_pos : 0 < interval
  /-- The scheduler sets the tick of a job together with its schedule. -/
  ticks_job : initial.ticks job = some period
  last_tenant : initial.last (job, tenant) = none
  active : ∀ n, tenant ∈ tenantIds n
  interval_tenant : ∀ n, (spec n).interval tenant = interval

namespace TickRun

variable (r : TickRun Job Tenant)

omit [DecidableEq Job] [DecidableEq Tenant] in
/-- The clock at the tick. -/
def time (n : ℕ) : ℚ := r.start + n * r.period

/-- The cadence before the tick. -/
def cadence : ℕ → Cadence Job Tenant
  | 0 => r.initial
  | n + 1 => ((cadence n).fleetJob (r.time n) r.job (some (r.spec n)) (r.tenantIds n)).1

/-- The tick runs the tenant. -/
def Runs (n : ℕ) : Prop :=
  r.tenant ∈ ((r.cadence n).fleetJob (r.time n) r.job (some (r.spec n)) (r.tenantIds n)).2

instance (n : ℕ) : Decidable (r.Runs n) :=
  inferInstanceAs (Decidable (r.tenant ∈ _))

/-- **The tenant runs at its own pace**: two consecutive runs are never closer together than its
interval, and never further apart than the interval rounded up to a whole number of ticks. -/
def Paced : Prop :=
  ∀ m n, Successive r.Runs m n →
    r.interval ≤ r.time n - r.time m ∧
      r.time n - r.time m ≤ ⌈r.interval / r.period⌉₊ * r.period

omit [DecidableEq Job] [DecidableEq Tenant] in
/-- The ticks after which the tenant is due: its interval less the tolerance, rounded up. -/
def dueTicks : ℕ := max 1 ⌈(r.interval - tolerance r.period) / r.period⌉₊

omit [DecidableEq Job] [DecidableEq Tenant] in
/-- The part of the interval after its last whole tick. -/
def remainder : ℚ := r.interval - ⌊r.interval / r.period⌋₊ * r.period

omit [DecidableEq Job] [DecidableEq Tenant] in
/-- **The interval rounds up**: it is one tick at most, or a whole number of them, or its remainder
is greater than the tolerance. -/
def Rounds : Prop :=
  r.interval ≤ r.period ∨ r.remainder = 0 ∨ tolerance r.period < r.remainder

variable {r} {m n : ℕ}

omit [DecidableEq Job] [DecidableEq Tenant] in
theorem time_sub : r.time n - r.time m = (n - m) * r.period := by
  rw [time, time]
  ring

theorem cadence_ticks : (r.cadence n).ticks r.job = some r.period := by
  induction n with
  | zero => exact r.ticks_job
  | succ n ih =>
    rw [cadence, Cadence.fleetJob_ticks]
    exact ih

theorem fleetTick_eq :
    (r.cadence n).fleetTick r.job (r.spec n) (r.tenantIds n) = r.period := by
  have hfilter : (some r.period).filter (· ≠ 0) = some r.period :=
    Option.filter_some_pos (decide_eq_true r.period_pos.ne')
  rw [Cadence.fleetTick, cadence_ticks, hfilter, Option.getD_some]

/-- A tick marks the tenant if it runs. -/
theorem cadence_succ_last :
    (r.cadence (n + 1)).last (r.job, r.tenant) =
      if r.Runs n then some (r.time n) else (r.cadence n).last (r.job, r.tenant) :=
  Cadence.fleetJob_last

theorem runs_iff_due :
    r.Runs n ↔ r.tenantIds n = [r.tenant] ∨
      (r.cadence n).due (r.time n) r.job r.tenant r.interval (some r.period) := by
  rw [Runs, Cadence.mem_fleetJob (r.active n), r.interval_tenant, fleetTick_eq]

theorem runs_zero : r.Runs 0 := by
  rw [runs_iff_due, Cadence.due, cadence, r.last_tenant]
  exact .inr rfl

/-- The mark of a tenant is the time of its last run. -/
theorem last_of_lastBefore (h : LastBefore r.Runs n m) :
    (r.cadence n).last (r.job, r.tenant) = some (r.time m) := by
  induction n, Nat.succ_le_of_lt h.lt using Nat.le_induction with
  | base => rw [cadence_succ_last, if_pos h.holds]
  | succ n hle ih =>
    rw [cadence_succ_last, if_neg (h.not_between n hle (Nat.lt_succ_self n))]
    exact ih (h.restrict hle (Nat.le_succ n))

omit [DecidableEq Job] [DecidableEq Tenant] in
theorem dueTicks_pos : 0 < r.dueTicks := lt_max_of_lt_left Nat.zero_lt_one

omit [DecidableEq Job] [DecidableEq Tenant] in
theorem dueTicks_le {k : ℕ} :
    r.dueTicks ≤ k ↔ 1 ≤ k ∧ r.interval - tolerance r.period ≤ k * r.period := by
  rw [dueTicks, max_le_iff, Nat.ceil_le, div_le_iff₀ r.period_pos]

/-- After its last run the tenant is due in `dueTicks` ticks. -/
theorem due_iff (h : LastBefore r.Runs n m) :
    (r.cadence n).due (r.time n) r.job r.tenant r.interval (some r.period) ↔
      m + r.dueTicks ≤ n := by
  obtain ⟨k, rfl⟩ := Nat.exists_eq_add_of_le h.lt.le
  have hpos : 1 ≤ k := by have := h.lt; omega
  rw [Nat.add_le_add_iff_left, dueTicks_le, and_iff_right hpos, Cadence.due, last_of_lastBefore h]
  simp only [Option.getD_some, ge_iff_le, decide_eq_true_eq, time_sub, Nat.cast_add,
    add_sub_cancel_left]

/-- **When the tenant runs**: at the first tick, where it is the only one, and `dueTicks` after its
last run. -/
theorem runs_iff (h : LastBefore r.Runs n m) :
    r.Runs n ↔ r.tenantIds n = [r.tenant] ∨ m + r.dueTicks ≤ n := by
  rw [runs_iff_due, due_iff h]

theorem returnsWithin : ReturnsWithin r.Runs r.dueTicks :=
  fun _ _ hlast hle => (runs_iff hlast).mpr (.inr hle)

/-- The tenant runs only every `dueTicks` ticks, if it is not alone in between. -/
theorem dvd_iff :
    (∀ n, r.Runs n → r.dueTicks ∣ n) ↔ ∀ n, r.tenantIds n = [r.tenant] → r.dueTicks ∣ n := by
  refine ⟨fun h n halone => h n (runs_iff_due.mpr (.inl halone)), fun h n => ?_⟩
  induction n using Nat.strong_induction_on with
  | _ n ih =>
    intro hruns
    rcases Nat.eq_zero_or_pos n with rfl | hpos
    · exact Nat.dvd_zero r.dueTicks
    · obtain ⟨m, hlast⟩ := LastBefore.exists_of_lt (P := r.Runs) runs_zero hpos
      rcases (runs_iff hlast).mp hruns with halone | hdue
      · exact h n halone
      · have heq : n = m + r.dueTicks :=
          le_antisymm (hlast.le_add returnsWithin r.dueTicks_pos) hdue
        rw [heq]
        exact Nat.dvd_add (ih m hlast.lt hlast.holds) (Nat.dvd_refl r.dueTicks)

/-! ### The pace -/

omit [DecidableEq Job] [DecidableEq Tenant] in
theorem tolerance_pos : 0 < tolerance r.period :=
  lt_min (by norm_num [cadenceJitter]) (half_pos r.period_pos)

omit [DecidableEq Job] [DecidableEq Tenant] in
theorem dueTicks_le_ceil : r.dueTicks ≤ ⌈r.interval / r.period⌉₊ := by
  refine dueTicks_le.mpr ⟨Nat.one_le_ceil_iff.mpr (div_pos r.interval_pos r.period_pos), ?_⟩
  have hceil := Nat.le_ceil (r.interval / r.period)
  rw [div_le_iff₀ r.period_pos] at hceil
  linarith [r.tolerance_pos]

omit [DecidableEq Job] [DecidableEq Tenant] in
/-- An interval longer than a tick rounds down if its remainder is within the tolerance. -/
theorem dueTicks_le_floor (hlong : r.period < r.interval) :
    r.dueTicks ≤ ⌊r.interval / r.period⌋₊ ↔ r.remainder ≤ tolerance r.period := by
  have hone : 1 ≤ ⌊r.interval / r.period⌋₊ := by
    rw [Nat.le_floor_iff (div_pos r.interval_pos r.period_pos).le, Nat.cast_one,
      one_le_div r.period_pos]
    exact hlong.le
  rw [dueTicks_le, and_iff_right hone, remainder, sub_le_comm]

omit [DecidableEq Job] [DecidableEq Tenant] in
/-- **Which intervals round up.** -/
theorem interval_le_iff : r.interval ≤ r.dueTicks * r.period ↔ r.Rounds := by
  have hperiod := r.period_pos
  have hdue : r.interval - tolerance r.period ≤ r.dueTicks * r.period := (dueTicks_le.mp le_rfl).2
  have hhalf : tolerance r.period ≤ r.period / 2 := min_le_right _ _
  rcases le_or_gt r.interval r.period with hshort | hlong
  · have hone : (1 : ℚ) ≤ r.dueTicks := by exact_mod_cast r.dueTicks_pos
    exact iff_of_true (hshort.trans (le_mul_of_one_le_left hperiod.le hone)) (.inl hshort)
  · have hlow : 0 ≤ r.remainder := by
      have hfloor := Nat.floor_le (div_pos r.interval_pos hperiod).le
      rw [le_div_iff₀ hperiod] at hfloor
      exact sub_nonneg.mpr hfloor
    have hhigh : r.interval < (⌊r.interval / r.period⌋₊ + 1) * r.period := by
      rw [← div_lt_iff₀ hperiod]
      exact Nat.lt_floor_add_one _
    have hremainder : ⌊r.interval / r.period⌋₊ * r.period = r.interval - r.remainder := by
      rw [remainder]
      ring
    rw [Rounds, or_iff_right (not_le.mpr hlong)]
    constructor
    · -- A remainder within the tolerance lets the tenant run before the interval is over.
      intro hle
      by_contra hrem
      rw [not_or, not_lt] at hrem
      have hpos : 0 < r.remainder := lt_of_le_of_ne hlow (Ne.symm hrem.1)
      have hcast : (r.dueTicks : ℚ) ≤ ⌊r.interval / r.period⌋₊ := by
        exact_mod_cast (dueTicks_le_floor hlong).mpr hrem.2
      have hmul := mul_le_mul_of_nonneg_right hcast hperiod.le
      linarith
    · rintro (hzero | hlt)
      · -- A whole number of ticks is more than half a tick away from the one before.
        by_contra hgt
        rw [not_le] at hgt
        have hcast : (r.dueTicks : ℚ) + 1 ≤ ⌊r.interval / r.period⌋₊ := by
          have : r.dueTicks * r.period < ⌊r.interval / r.period⌋₊ * r.period := by linarith
          exact_mod_cast lt_of_mul_lt_mul_right this hperiod.le
        have hmul := mul_le_mul_of_nonneg_right hcast hperiod.le
        linarith
      · have hcast : (⌊r.interval / r.period⌋₊ : ℚ) + 1 ≤ r.dueTicks := by
          exact_mod_cast not_le.mp fun h => not_le.mpr hlt ((dueTicks_le_floor hlong).mp h)
        have hmul := mul_le_mul_of_nonneg_right hcast hperiod.le
        exact hhigh.le.trans hmul

/-- **The tenant runs at its own pace** if and only if its interval rounds up, and it is the only
tenant only at ticks at which it is due anyway. -/
theorem paced_iff (r : TickRun Job Tenant) :
    r.Paced ↔ r.Rounds ∧ ∀ n, r.tenantIds n = [r.tenant] → r.dueTicks ∣ n := by
  rw [← interval_le_iff, ← dvd_iff, ← add_le_iff_dvd runs_zero returnsWithin r.dueTicks_pos]
  have hperiod := r.period_pos
  constructor
  · intro hpaced
    have hgap {m n : ℕ} (hnext : Successive r.Runs m n) :
        r.interval ≤ (n - m) * r.period ∧ n ≤ m + r.dueTicks :=
      ⟨time_sub (r := r) ▸ (hpaced m n hnext).1, hnext.1.le_add returnsWithin r.dueTicks_pos⟩
    refine ⟨?_, fun m n hnext => ?_⟩
    · obtain ⟨n, hnext⟩ := exists_successive runs_zero returnsWithin r.dueTicks_pos
      obtain ⟨hle, hsteps⟩ := hgap hnext
      have hcast : (n : ℚ) - (0 : ℕ) ≤ r.dueTicks := by
        rw [Nat.cast_zero, sub_zero]
        exact_mod_cast hsteps.trans_eq (Nat.zero_add _)
      exact hle.trans (mul_le_mul_of_nonneg_right hcast hperiod.le)
    · obtain ⟨k, rfl⟩ := Nat.exists_eq_add_of_le hnext.1.lt.le
      have hle := (hgap hnext).1
      rw [Nat.cast_add, add_sub_cancel_left] at hle
      refine Nat.add_le_add_left (dueTicks_le.mpr ⟨?_, ?_⟩) m
      · have := hnext.1.lt
        omega
      · linarith [r.tolerance_pos]
  · rintro ⟨hle, hgap⟩ m n hnext
    obtain ⟨k, rfl⟩ := Nat.exists_eq_add_of_le hnext.1.lt.le
    rw [time_sub, Nat.cast_add, add_sub_cancel_left]
    have hsame : k = r.dueTicks :=
      le_antisymm (Nat.le_of_add_le_add_left (hnext.1.le_add returnsWithin r.dueTicks_pos))
        (Nat.le_of_add_le_add_left (hgap m _ hnext))
    rw [hsame]
    have hcast : (r.dueTicks : ℚ) ≤ ⌈r.interval / r.period⌉₊ := by exact_mod_cast dueTicks_le_ceil
    exact ⟨hle, mul_le_mul_of_nonneg_right hcast hperiod.le⟩

/-- An interval of 61 seconds beside one of 60 seconds. -/
def sample : TickRun Unit ℕ where
  job := ()
  tenant := 2
  start := 0
  period := 60
  interval := 61
  initial := ⟨fun _ => none, fun _ => some 60⟩
  spec _ := ⟨fun t => if t = 2 then 61 else 60, 60⟩
  tenantIds _ := [1, 2]
  period_pos := by norm_num
  interval_pos := by norm_num
  ticks_job := rfl
  last_tenant := rfl
  active _ := by decide
  interval_tenant _ := rfl

/-- **The tenant runs every 60 seconds.** -/
theorem not_paced_sample : ¬sample.Paced := by
  intro h
  have hnext : Successive sample.Runs 0 1 :=
    ⟨⟨Nat.zero_lt_one, by decide +kernel, fun k hlow hhigh => by omega⟩, by decide +kernel⟩
  have hle := (h 0 1 hnext).1
  rw [time_sub] at hle
  norm_num [sample] at hle

end TickRun

end Nodeglow.TenantCadence
