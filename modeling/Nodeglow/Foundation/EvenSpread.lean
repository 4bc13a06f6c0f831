import Mathlib.Algebra.Order.Floor.Ring
import Mathlib.Data.Int.ConditionallyCompleteOrder
import Mathlib.Data.Int.Range
import Mathlib.Data.List.Infix

/-!
# Evenly spread positions

The first multiples of a step, rounded down to positions. A step of one at least never hits a
position twice. Whatever the step, no position is further above one that is hit than the step
rounded up, so neighbours are not further apart.

## Main definitions

* `spread` — the positions.

## Main results

* `pairwise_spread` — the positions increase.
* `exists_mem_spread` — no position is far above one that is hit.
* `le_add_ceil` — how far neighbours are apart.
-/

namespace Nodeglow

variable {K : Type*} [Field K] [LinearOrder K] [IsStrictOrderedRing K] [FloorRing K] {s : K}
  {i j m x a b : ℤ}

/-- The first `m` multiples of a step, from zero on, rounded down. -/
def spread (s : K) (m : ℤ) : List ℤ := (Int.range 0 m).map fun i : ℤ => ⌊(i : K) * s⌋

omit [IsStrictOrderedRing K] in
theorem mem_spread : a ∈ spread s m ↔ ∃ i, (0 ≤ i ∧ i < m) ∧ ⌊(i : K) * s⌋ = a := by
  simp only [spread, List.mem_map, Int.mem_range_iff]

/-! ### One step -/

theorem floor_succ_mul_le (s : K) (i : ℤ) :
    ⌊((i + 1 : ℤ) : K) * s⌋ ≤ ⌊(i : K) * s⌋ + ⌈s⌉ := by
  have hstep : ((i + 1 : ℤ) : K) * s ≤ (i : K) * s + (⌈s⌉ : ℤ) := by
    rw [Int.cast_add, Int.cast_one, add_mul, one_mul]
    exact add_le_add_right (Int.le_ceil s) _
  calc
    ⌊((i + 1 : ℤ) : K) * s⌋ ≤ ⌊(i : K) * s + (⌈s⌉ : ℤ)⌋ := Int.floor_le_floor hstep
    _ = ⌊(i : K) * s⌋ + ⌈s⌉ := Int.floor_add_intCast ..

theorem floor_mul_add_le (s : K) (i : ℤ) :
    ⌊(i : K) * s⌋ + ⌊s⌋ ≤ ⌊((i + 1 : ℤ) : K) * s⌋ := by
  rw [Int.cast_add, Int.cast_one, add_mul, one_mul]
  exact Int.le_floor_add ..

theorem strictMono_floor_mul (hs : 1 ≤ s) : StrictMono fun i : ℤ => ⌊(i : K) * s⌋ := by
  refine strictMono_int_of_lt_succ fun i => ?_
  have hone : 1 ≤ ⌊s⌋ := Int.le_floor.mpr (by simpa using hs)
  have hstep := floor_mul_add_le s i
  omega

/-! ### The positions -/

/-- A range increases. -/
theorem pairwise_intRange (i j : ℤ) : (Int.range i j).Pairwise (· < ·) := by
  rw [Int.range, List.pairwise_map]
  exact List.pairwise_lt_range.imp fun hlt => by omega

theorem length_intRange (i j : ℤ) : (Int.range i j).length = (j - i).toNat := by
  rw [Int.range, List.length_map, List.length_range]

omit [IsStrictOrderedRing K] in
theorem spread_of_nonpos (hm : m ≤ 0) : spread s m = [] := by
  simp [spread, Int.range, Int.toNat_of_nonpos hm]

omit [IsStrictOrderedRing K] in
theorem length_spread (s : K) (m : ℤ) : (spread s m).length = m.toNat := by
  rw [spread, List.length_map, length_intRange, sub_zero]

/-- **The positions increase**, so that none is hit twice. -/
theorem pairwise_spread (hs : 1 ≤ s) (m : ℤ) : (spread s m).Pairwise (· < ·) :=
  List.pairwise_map.mpr ((pairwise_intRange 0 m).imp fun hlt => strictMono_floor_mul hs hlt)

theorem nonneg_of_mem_spread (hs : 0 ≤ s) (ha : a ∈ spread s m) : 0 ≤ a := by
  obtain ⟨i, ⟨hi, -⟩, rfl⟩ := mem_spread.mp ha
  exact Int.floor_nonneg.mpr (mul_nonneg (Int.cast_nonneg hi) hs)

theorem lt_of_mem_spread (hs : 0 < s) (ha : a ∈ spread s m) : (a : K) < m * s := by
  obtain ⟨i, ⟨-, hi⟩, rfl⟩ := mem_spread.mp ha
  calc
    (⌊(i : K) * s⌋ : K) ≤ i * s := Int.floor_le _
    _ < m * s := mul_lt_mul_of_pos_right (Int.cast_lt.mpr hi) hs

/-- **No position is far above one that is hit.** -/
theorem exists_mem_spread (hs : 0 < s) (hx : 0 ≤ x) (hxm : ((x + 1 : ℤ) : K) ≤ m * s) :
    ∃ a ∈ spread s m, a ≤ x ∧ x < a + ⌈s⌉ := by
  -- The multiple after the greatest one that is rounded down to `x` or less.
  obtain ⟨k, hk⟩ : ∃ k, k = ⌈((x + 1 : ℤ) : K) / s⌉ := ⟨_, rfl⟩
  have hnext : x + 1 ≤ ⌊(k : K) * s⌋ := by
    rw [Int.le_floor, ← div_le_iff₀ hs, hk]
    exact Int.le_ceil _
  have hlast : ⌊((k - 1 : ℤ) : K) * s⌋ < x + 1 := by
    rw [Int.floor_lt, ← lt_div_iff₀ hs, ← Int.lt_ceil, ← hk]
    omega
  have hpos : 0 < k := by
    rw [hk, Int.ceil_pos]
    exact div_pos (Int.cast_pos.mpr (by omega)) hs
  have hkm : k ≤ m := by
    rw [hk, Int.ceil_le, div_le_iff₀ hs]
    exact hxm
  have hstep := floor_succ_mul_le s (k - 1)
  rw [sub_add_cancel] at hstep
  exact ⟨_, mem_spread.mpr ⟨k - 1, ⟨by omega, by omega⟩, rfl⟩, by omega, by omega⟩

/-- Nothing stands between neighbours. -/
theorem le_or_le_of_infix {α : Type*} [Preorder α] {l : List α} {a b c : α}
    (hl : l.Pairwise (· < ·)) (hab : [a, b] <:+: l) (hc : c ∈ l) : c ≤ a ∨ b ≤ c := by
  obtain ⟨front, back, rfl⟩ := hab
  obtain ⟨hleft, -, hback⟩ := List.pairwise_append.mp hl
  obtain ⟨-, -, hfront⟩ := List.pairwise_append.mp hleft
  rcases List.mem_append.mp hc with hc | hc
  · rcases List.mem_append.mp hc with hc | hc
    · exact .inl (hfront c hc a List.mem_cons_self).le
    · rcases List.mem_pair.mp hc with rfl | rfl
      · exact .inl le_rfl
      · exact .inr le_rfl
  · exact .inr (hback b (by simp) c hc).le

/-- **Neighbours are not further apart** than the step rounded up. -/
theorem le_add_ceil (hs : 0 < s) (ha : a ∈ spread s m) (hb : b ∈ spread s m) (hab : a < b)
    (hbetween : ∀ c ∈ spread s m, c ≤ a ∨ b ≤ c) : b ≤ a + ⌈s⌉ := by
  have hnonneg := nonneg_of_mem_spread hs.le ha
  have hbm : ((b - 1 + 1 : ℤ) : K) ≤ m * s := by
    rw [sub_add_cancel]
    exact (lt_of_mem_spread hs hb).le
  obtain ⟨c, hc, hcb, hbc⟩ := exists_mem_spread hs (by omega) hbm
  rcases hbetween c hc with hca | hbc'
  · omega
  · omega

end Nodeglow
