import Mathlib.Tactic.Linarith
import Mathlib.Tactic.Positivity
import Nodeglow.Backend.LogIntelligence.Baselines
import Nodeglow.Foundation.Moments

/-!
# The estimate of a rate

The rate of a host is estimated by an exponentially weighted mean and variance. The weight of a
sample is one over the number of samples until that is less than a least weight, and then the least
weight. Until then the estimate is the mean and the variance of the samples. Afterwards, the mean is
still between two samples and the variance is not negative.

The numbers are rational here.

## Main results

* `ewma_eq_of_le` — the first samples.
* `nonneg_ewma`, `between_ewma` — all samples.
* `ewma_spec` — both.

Source: `backend/services/log_intelligence.py`, lines 633–661.
-/

namespace Nodeglow.LogIntelligence

open Moments

/-- The weight of a sample. -/
def weight (alphaMin : ℚ) (n : ℕ) : ℚ := max (1 / n) alphaMin

/-- `ewma_update`: the mean, the variance and the number of samples. -/
def ewmaUpdate (alphaMin mean var : ℚ) (n : ℕ) (x : ℚ) : ℚ × ℚ × ℕ :=
  let n := n + 1
  let a := weight alphaMin n
  let diff := x - mean
  let mean := mean + a * diff
  let var := (1 - a) * (var + a * diff * diff)
  (mean, var, n)

/-- All samples. -/
def ewma (alphaMin : ℚ) (samples : List ℚ) : ℚ × ℚ × ℕ :=
  samples.foldl (fun s x => ewmaUpdate alphaMin s.1 s.2.1 s.2.2 x) (0, 0, 0)

variable {alphaMin : ℚ} {samples : List ℚ} {x : ℚ}

theorem ewma_concat (alphaMin : ℚ) (samples : List ℚ) (x : ℚ) :
    ewma alphaMin (samples ++ [x]) = ewmaUpdate alphaMin (ewma alphaMin samples).1
      (ewma alphaMin samples).2.1 (ewma alphaMin samples).2.2 x := by
  rw [ewma, List.foldl_append]
  rfl

/-! ### The weight -/

theorem weight_pos (alphaMin : ℚ) (n : ℕ) : 0 < weight alphaMin (n + 1) :=
  lt_max_of_lt_left (by positivity)

theorem weight_le_one (h : alphaMin ≤ 1) (n : ℕ) : weight alphaMin (n + 1) ≤ 1 := by
  refine max_le ?_ h
  rw [div_le_one (by positivity)]
  exact_mod_cast Nat.le_add_left 1 n

/-! ### The first samples -/

/-- **The first samples**: their mean and their variance. -/
theorem ewma_eq_of_le (h : samples ≠ [] → alphaMin ≤ 1 / samples.length) :
    ewma alphaMin samples = (mean samples, variance samples, samples.length) := by
  induction samples using List.reverseRecOn with
  | nil => simp [ewma, mean, variance]
  | append_singleton samples x ih =>
    have hlast := h (by simp)
    rw [List.length_append, List.length_singleton] at hlast
    have hbefore : samples ≠ [] → alphaMin ≤ 1 / samples.length := by
      intro hne
      have hpos : (0 : ℚ) < samples.length := by
        exact_mod_cast List.length_pos_of_ne_nil hne
      refine hlast.trans (one_div_le_one_div_of_le hpos ?_)
      exact_mod_cast Nat.le_succ _
    have hweight : weight alphaMin (samples.length + 1) = 1 / (samples.length + 1) := by
      rw [weight, max_eq_left hlast, Nat.cast_succ]
    rw [ewma_concat, ih hbefore, ewmaUpdate, mean_concat, variance_concat, List.length_append,
      List.length_singleton]
    simp only [hweight, Prod.mk.injEq, and_true]
    constructor
    · ring
    · ring

/-! ### All samples -/

/-- **The variance** is not negative. -/
theorem nonneg_ewma (h : alphaMin ≤ 1) : 0 ≤ (ewma alphaMin samples).2.1 := by
  induction samples using List.reverseRecOn with
  | nil => exact le_rfl
  | append_singleton samples x ih =>
    rw [ewma_concat, ewmaUpdate]
    have hpos := weight_pos alphaMin (ewma alphaMin samples).2.2
    have hle := weight_le_one h (ewma alphaMin samples).2.2
    refine mul_nonneg (sub_nonneg.mpr hle) (add_nonneg ih ?_)
    rw [mul_assoc]
    exact mul_nonneg hpos.le (mul_self_nonneg _)

/-- A mean moves towards a sample, and not past it. -/
theorem moved_le {m a : ℚ} (ha : a ≤ 1) (hle : m ≤ x) : m + a * (x - m) ≤ x := by
  have hprod := mul_nonneg (sub_nonneg.mpr ha) (sub_nonneg.mpr hle)
  linarith

theorem le_moved {m a : ℚ} (ha : a ≤ 1) (hle : x ≤ m) : x ≤ m + a * (x - m) := by
  have hprod := mul_nonneg (sub_nonneg.mpr ha) (sub_nonneg.mpr hle)
  linarith

/-- **The mean** is between two samples. -/
theorem between_ewma (h : alphaMin ≤ 1) (hne : samples ≠ []) :
    (∃ x ∈ samples, x ≤ (ewma alphaMin samples).1) ∧
      ∃ x ∈ samples, (ewma alphaMin samples).1 ≤ x := by
  induction samples using List.reverseRecOn with
  | nil => exact absurd rfl hne
  | append_singleton samples x ih =>
    have hx : x ∈ samples ++ [x] := List.mem_append_right _ List.mem_cons_self
    rw [ewma_concat, ewmaUpdate]
    set m := (ewma alphaMin samples).1
    have hpos := weight_pos alphaMin (ewma alphaMin samples).2.2
    have hle := weight_le_one h (ewma alphaMin samples).2.2
    set a := weight alphaMin ((ewma alphaMin samples).2.2 + 1)
    rcases eq_or_ne samples [] with rfl | hsamples
    · have hone : a = 1 := by
        change weight alphaMin (0 + 1) = 1
        rw [weight, max_eq_left (by simpa using h)]
        norm_num
      have hmean : m + a * (x - m) = x := by
        rw [hone]
        ring
      exact ⟨⟨x, hx, hmean.ge⟩, ⟨x, hx, hmean.le⟩⟩
    · obtain ⟨⟨y, hy, hlow⟩, ⟨z, hz, hhigh⟩⟩ := ih hsamples
      rcases le_total x m with hxm | hxm
      · have hdown : m + a * (x - m) ≤ m := by
          have hprod := mul_nonneg hpos.le (sub_nonneg.mpr hxm)
          linarith
        exact ⟨⟨x, hx, le_moved hle hxm⟩, ⟨z, List.mem_append_left _ hz, hdown.trans hhigh⟩⟩
      · have hup : m ≤ m + a * (x - m) :=
          le_add_of_nonneg_right (mul_nonneg hpos.le (sub_nonneg.mpr hxm))
        exact ⟨⟨y, List.mem_append_left _ hy, hlow.trans hup⟩, ⟨x, hx, moved_le hle hxm⟩⟩

/-- **The estimate** is the mean and the variance of the samples, as long as the weight is one over
their number; for any number of samples the variance is not negative, and the mean is between two of
them. -/
theorem ewma_spec (alphaMin : ℚ) (samples : List ℚ) :
    (samples ≠ [] → alphaMin ≤ 1 / samples.length →
      (ewma alphaMin samples).1 = mean samples ∧
        (ewma alphaMin samples).2.1 = variance samples) ∧
      (alphaMin ≤ 1 → 0 ≤ (ewma alphaMin samples).2.1 ∧
        (samples ≠ [] → (∃ x ∈ samples, x ≤ (ewma alphaMin samples).1) ∧
          ∃ x ∈ samples, (ewma alphaMin samples).1 ≤ x)) := by
  refine ⟨fun _ h => ?_, fun h => ⟨nonneg_ewma h, between_ewma h⟩⟩
  rw [ewma_eq_of_le fun _ => h]
  exact ⟨rfl, rfl⟩

end Nodeglow.LogIntelligence
