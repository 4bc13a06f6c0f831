import Mathlib.Data.List.Dedup
import Mathlib.Data.List.Sort
import Mathlib.Data.Rat.Floor
import Nodeglow.Foundation.EvenSpread

/-!
# Which rows of a time series are loaded

`select_sample_indices` picks the newest rows, and spends the rest of its budget on rows that are
spread evenly over what comes before them. Their indices are multiples of a step that need not be
whole, rounded down into a set. The arithmetic is exact here; in it the step is greater than one, so
that no two multiples are rounded to the same index, and the cap on them does nothing.

## Main results

* `selectSampleIndices_of_lt` — what is picked from a window beyond the budget.
* `selectSampleIndices_spendsBudget` — the budget is spent exactly.

Source: `backend/services/_sampling.py`, lines 12–33.
-/

namespace Nodeglow.Sampling

/-- Python's `int` of a number: the fraction is cut off. -/
def int (x : ℚ) : ℤ := x.num.tdiv x.den

/-- `sorted(set(xs))`. -/
def sortedSet (xs : List ℤ) : List ℤ := xs.dedup.insertionSort (· ≤ ·)

/-- `select_sample_indices`. -/
def selectSampleIndices (total budget keepNewest : ℤ) : List ℤ :=
  if total ≤ 0 then []
  else if total ≤ budget then Int.range 0 total
  else
    let keepNewest := min keepNewest total
    let tailStart := total - keepNewest
    let picked := Int.range tailStart total
    let remaining := budget - keepNewest
    let picked :=
      if 0 < remaining ∧ 0 < tailStart then
        let step : ℚ := tailStart / remaining
        picked ++ (Int.range 0 remaining).map fun i : ℤ => min (int (i * step)) (tailStart - 1)
      else picked
    sortedSet picked

/-- The spacing of an even spread of the rest of the budget over the older rows. -/
def spacing (total budget keepNewest : ℤ) : ℚ :=
  ((total - keepNewest : ℤ) : ℚ) / (budget - keepNewest : ℤ)

/-- **A sample that spends its budget**: as many rows as the budget allows, in order, with the
newest rows among them, and no two neighbours of the older ones further apart than the spacing of an
even spread. -/
structure SpendsBudget (total budget keepNewest : ℤ) (picked : List ℤ) : Prop where
  increasing : picked.Pairwise (· < ·)
  length : (picked.length : ℤ) = budget
  within : ∀ i ∈ picked, 0 ≤ i ∧ i < total
  newest : ∀ i, total - keepNewest ≤ i → i < total → i ∈ picked
  spaced : ∀ i j, [i, j] <:+: picked → j < total - keepNewest →
    j - i ≤ ⌈spacing total budget keepNewest⌉

variable {total budget keepNewest i j : ℤ} {xs ys : List ℤ}

theorem int_of_nonneg {x : ℚ} (hx : 0 ≤ x) : int x = ⌊x⌋ := by
  rw [int, Int.tdiv_eq_ediv_of_nonneg (Rat.num_nonneg.mpr hx), Rat.floor_def']

/-! ### Sets of indices -/

theorem mem_sortedSet : i ∈ sortedSet xs ↔ i ∈ xs := by
  rw [sortedSet, List.mem_insertionSort, List.mem_dedup]

theorem pairwise_sortedSet (xs : List ℤ) : (sortedSet xs).Pairwise (· < ·) := by
  have hnodup : (sortedSet xs).Nodup :=
    (List.perm_insertionSort _ _).nodup_iff.mpr (List.nodup_dedup xs)
  exact (List.pairwise_insertionSort (· ≤ ·) xs.dedup).imp₂ (fun _ _ => lt_of_le_of_ne) hnodup

/-- A list in order with the same indices is the sorted set. -/
theorem sortedSet_eq (hys : ys.Pairwise (· < ·)) (h : ∀ i, i ∈ xs ↔ i ∈ ys) :
    sortedSet xs = ys :=
  (pairwise_sortedSet xs).eq_of_mem_iff hys fun i => mem_sortedSet.trans (h i)

/-! ### What is picked -/

/-- **A window within the budget** is returned whole. -/
theorem selectSampleIndices_of_le (h : total ≤ budget) :
    selectSampleIndices total budget keepNewest = Int.range 0 total := by
  unfold selectSampleIndices
  split_ifs with hempty
  · simp [Int.range, Int.toNat_of_nonpos hempty]
  · rfl

/-- The steps of the rest of the budget lead to the newest rows. -/
theorem mul_spacing (hk : keepNewest < budget) :
    ((budget - keepNewest : ℤ) : ℚ) * spacing total budget keepNewest =
      (total - keepNewest : ℤ) :=
  mul_div_cancel₀ _ (Int.cast_ne_zero.mpr (by omega))

theorem lt_of_mem_older (hi : i ∈ spread (spacing total budget keepNewest) (budget - keepNewest)) :
    keepNewest < budget := by
  obtain ⟨k, ⟨hk, hkm⟩, -⟩ := mem_spread.mp hi
  omega

section Select

variable (hb : budget < total)

include hb

/-- The step is greater than one. -/
theorem one_lt_spacing (hk : keepNewest < budget) : 1 < spacing total budget keepNewest := by
  have hpos : (0 : ℚ) < (budget - keepNewest : ℤ) := Int.cast_pos.mpr (by omega)
  rw [spacing, one_lt_div hpos, Int.cast_lt]
  omega

theorem spacing_pos (hk : keepNewest < budget) : 0 < spacing total budget keepNewest :=
  zero_lt_one.trans (one_lt_spacing hb hk)

/-- The older indices are before the newest. -/
theorem mem_older (hi : i ∈ spread (spacing total budget keepNewest) (budget - keepNewest)) :
    0 ≤ i ∧ i < total - keepNewest := by
  have hk := lt_of_mem_older hi
  have hlt := lt_of_mem_spread (spacing_pos hb hk) hi
  rw [mul_spacing hk, Int.cast_lt] at hlt
  exact ⟨nonneg_of_mem_spread (spacing_pos hb hk).le hi, hlt⟩

theorem pairwise_older :
    (spread (spacing total budget keepNewest) (budget - keepNewest)).Pairwise (· < ·) := by
  by_cases hk : keepNewest < budget
  · exact pairwise_spread (one_lt_spacing hb hk).le _
  · rw [spread_of_nonpos (by omega)]
    exact .nil

/-- An index of the source is the multiple rounded down: it is not negative, and below the cap. -/
theorem min_int_eq (hi : 0 ≤ i) (him : i < budget - keepNewest) :
    min (int (i * spacing total budget keepNewest)) (total - keepNewest - 1) =
      ⌊i * spacing total budget keepNewest⌋ := by
  have hstep : 0 < spacing total budget keepNewest := spacing_pos hb (by omega)
  have hmem := mem_older hb (mem_spread.mpr ⟨i, ⟨hi, him⟩, rfl⟩)
  rw [int_of_nonneg (mul_nonneg (Int.cast_nonneg hi) hstep.le)]
  exact min_eq_left (by omega)

/-- In order: the older indices, and then the newest. -/
theorem pairwise_picked :
    (spread (spacing total budget keepNewest) (budget - keepNewest) ++
      Int.range (total - keepNewest) total).Pairwise (· < ·) := by
  refine List.pairwise_append.mpr ⟨pairwise_older hb, pairwise_intRange _ _, fun i hi j hj => ?_⟩
  exact (mem_older hb hi).2.trans_le (Int.mem_range_iff.mp hj).1

/-- **From a window beyond the budget** the older indices are picked and the newest ones. -/
theorem selectSampleIndices_of_lt (h0 : 0 ≤ keepNewest) (hk : keepNewest ≤ budget) :
    selectSampleIndices total budget keepNewest =
      spread (spacing total budget keepNewest) (budget - keepNewest) ++
        Int.range (total - keepNewest) total := by
  simp only [selectSampleIndices]
  rw [if_neg (by omega), if_neg (by omega), min_eq_left (by omega)]
  refine sortedSet_eq (pairwise_picked hb) fun i => ?_
  split_ifs with hrest
  · have hcongr : (Int.range 0 (budget - keepNewest)).map (fun i : ℤ =>
        min (int (i * (((total - keepNewest : ℤ) : ℚ) / (budget - keepNewest : ℤ))))
          (total - keepNewest - 1)) =
        spread (spacing total budget keepNewest) (budget - keepNewest) :=
      List.map_congr_left fun i hi =>
        min_int_eq hb (Int.mem_range_iff.mp hi).1 (Int.mem_range_iff.mp hi).2
    rw [hcongr, List.mem_append, List.mem_append, or_comm]
  · -- No rest of the budget: the window is longer than the newest rows.
    rw [spread_of_nonpos (by omega), List.nil_append]

/-- What is picked before the newest is one of the older indices. -/
theorem mem_older_of_lt (h0 : 0 ≤ keepNewest) (hk : keepNewest ≤ budget)
    (hi : i ∈ selectSampleIndices total budget keepNewest) (hold : i < total - keepNewest) :
    i ∈ spread (spacing total budget keepNewest) (budget - keepNewest) := by
  rw [selectSampleIndices_of_lt hb h0 hk, List.mem_append, Int.mem_range_iff] at hi
  exact hi.resolve_right fun hnewest => absurd hnewest.1 (not_le.mpr hold)

/-- **Older neighbours** are not further apart than the spacing rounded up. -/
theorem sub_le_ceil_spacing (h0 : 0 ≤ keepNewest) (hk : keepNewest ≤ budget)
    (hij : [i, j] <:+: selectSampleIndices total budget keepNewest)
    (hold : j < total - keepNewest) : j - i ≤ ⌈spacing total budget keepNewest⌉ := by
  have hpicked := selectSampleIndices_of_lt hb h0 hk
  have hlt : i < j := by
    rw [hpicked] at hij
    simpa using (pairwise_picked hb).sublist hij.sublist
  have hi := mem_older_of_lt hb h0 hk (hij.subset (by simp)) (hlt.trans hold)
  have hj := mem_older_of_lt hb h0 hk (hij.subset (by simp)) hold
  rw [hpicked] at hij
  have hle := le_add_ceil (spacing_pos hb (lt_of_mem_older hi)) hi hj hlt fun c hc =>
    le_or_le_of_infix (pairwise_picked hb) hij (List.mem_append_left _ hc)
  omega

end Select

/-! ### What a sample is -/

section Sample

variable (h0 : 0 ≤ keepNewest) (hk : keepNewest ≤ budget)

include h0 hk

theorem pairwise_selectSampleIndices :
    (selectSampleIndices total budget keepNewest).Pairwise (· < ·) := by
  rcases le_or_gt total budget with hb | hb
  · rw [selectSampleIndices_of_le hb]
    exact pairwise_intRange 0 total
  · rw [selectSampleIndices_of_lt hb h0 hk]
    exact pairwise_picked hb

theorem within_selectSampleIndices (hi : i ∈ selectSampleIndices total budget keepNewest) :
    0 ≤ i ∧ i < total := by
  rcases le_or_gt total budget with hb | hb
  · rw [selectSampleIndices_of_le hb] at hi
    exact Int.mem_range_iff.mp hi
  · rw [selectSampleIndices_of_lt hb h0 hk] at hi
    rcases List.mem_append.mp hi with hi | hi
    · have holder := mem_older hb hi
      omega
    · have hnewest := Int.mem_range_iff.mp hi
      omega

/-- The newest indices are picked. -/
theorem mem_selectSampleIndices (hi : 0 ≤ i) (hnewest : total - keepNewest ≤ i) (hit : i < total) :
    i ∈ selectSampleIndices total budget keepNewest := by
  rcases le_or_gt total budget with hb | hb
  · rw [selectSampleIndices_of_le hb]
    exact Int.mem_range_iff.mpr ⟨hi, hit⟩
  · rw [selectSampleIndices_of_lt hb h0 hk]
    exact List.mem_append_right _ (Int.mem_range_iff.mpr ⟨hnewest, hit⟩)

theorem length_selectSampleIndices (htotal : 0 ≤ total) :
    ((selectSampleIndices total budget keepNewest).length : ℤ) = min total budget := by
  rcases le_or_gt total budget with hb | hb
  · rw [selectSampleIndices_of_le hb, length_intRange, min_eq_left hb]
    omega
  · rw [selectSampleIndices_of_lt hb h0 hk, List.length_append, length_spread, length_intRange,
      min_eq_right hb.le]
    omega

/-- **The budget is spent exactly.** -/
theorem selectSampleIndices_spendsBudget (hb : budget < total) :
    SpendsBudget total budget keepNewest (selectSampleIndices total budget keepNewest) where
  increasing := pairwise_selectSampleIndices h0 hk
  length := by
    rw [length_selectSampleIndices h0 hk (h0.trans (hk.trans hb.le)), min_eq_right hb.le]
  within _ := within_selectSampleIndices h0 hk
  newest i hnewest hit := mem_selectSampleIndices h0 hk (by omega) hnewest hit
  spaced _ _ := sub_le_ceil_spacing hb h0 hk

end Sample

theorem selectSampleIndices_spendsBudget_week :
    SpendsBudget 18443 200 10 (selectSampleIndices 18443 200 10) :=
  selectSampleIndices_spendsBudget (by decide) (by decide) (by decide)

example : selectSampleIndices 10 5 2 = [0, 2, 5, 8, 9] := by decide +kernel

end Nodeglow.Sampling
