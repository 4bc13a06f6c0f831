import Mathlib.Tactic.FieldSimp
import Mathlib.Tactic.Ring

/-!
# The mean and the variance of samples

The arithmetic mean and the population variance of a list of samples, and what one sample more makes
of them.

## Main definitions

* `mean`, `variance`.

## Main results

* `mean_concat`, `variance_concat` — one sample more.
-/

namespace Nodeglow.Moments

variable {K : Type*} [Field K] [CharZero K]

/-- The arithmetic mean. -/
def mean (xs : List K) : K := xs.sum / xs.length

/-- The population variance. -/
def variance (xs : List K) : K := (xs.map fun x => (x - mean xs) ^ 2).sum / xs.length

omit [CharZero K] in
/-- The squares of the distances to a point. -/
theorem sum_sq_sub (xs : List K) (m : K) :
    (xs.map fun x => (x - m) ^ 2).sum =
      (xs.map fun x => x ^ 2).sum - 2 * m * xs.sum + xs.length * m ^ 2 := by
  induction xs with
  | nil => simp
  | cons x xs ih =>
    simp only [List.map_cons, List.sum_cons, List.length_cons, ih, Nat.cast_succ]
    ring

/-- **The variance** is the mean of the squares, without the square of the mean. -/
theorem variance_eq {xs : List K} (h : xs ≠ []) :
    variance xs = (xs.map fun x => x ^ 2).sum / xs.length - mean xs ^ 2 := by
  have hlength : (xs.length : K) ≠ 0 := Nat.cast_ne_zero.mpr (List.length_pos_of_ne_nil h).ne'
  rw [variance, sum_sq_sub, mean]
  field_simp
  ring

/-- **The mean** with one sample more. -/
theorem mean_concat (xs : List K) (x : K) :
    mean (xs ++ [x]) = mean xs + (x - mean xs) / (xs.length + 1) := by
  have hpos : (xs.length : K) + 1 ≠ 0 := Nat.cast_add_one_ne_zero _
  rcases eq_or_ne xs [] with rfl | hne
  · simp [mean]
  · have hlength : (xs.length : K) ≠ 0 := Nat.cast_ne_zero.mpr (List.length_pos_of_ne_nil hne).ne'
    rw [mean, mean, List.sum_append, List.sum_singleton, List.length_append, List.length_singleton,
      Nat.cast_succ]
    field_simp
    ring

/-- **The variance** with one sample more. -/
theorem variance_concat (xs : List K) (x : K) :
    variance (xs ++ [x]) = (1 - 1 / (xs.length + 1)) *
      (variance xs + (x - mean xs) ^ 2 / (xs.length + 1)) := by
  have hpos : (xs.length : K) + 1 ≠ 0 := Nat.cast_add_one_ne_zero _
  rcases eq_or_ne xs [] with rfl | hne
  · simp [variance, mean]
  · have hlength : (xs.length : K) ≠ 0 := Nat.cast_ne_zero.mpr (List.length_pos_of_ne_nil hne).ne'
    have hconcat : xs ++ [x] ≠ [] := by simp
    rw [variance_eq hconcat, variance_eq hne, mean_concat, List.map_append, List.map_singleton,
      List.sum_append, List.sum_singleton, List.length_append, List.length_singleton, Nat.cast_succ]
    field_simp
    ring

end Nodeglow.Moments
