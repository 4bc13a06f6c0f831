import Mathlib.Algebra.Order.Ring.Nat
import Mathlib.Data.Nat.Find

/-!
# The gaps between the numbers with a property

A property of numbers holds again and again. `LastBefore` is the last number with the property
before a given one, and two numbers are `Successive` if they have the property and none between them
has it.

A property *returns within* `d` if it holds of every number from which its last number is at least
`d` away. Then no gap is longer than `d`, and no gap is shorter if and only if the property holds of
multiples of `d` only.

## Main definitions

* `LastBefore`, `Successive`.
* `ReturnsWithin` — the property holds after `d` steps at the latest.

## Main results

* `LastBefore.le_add` — no gap is longer than `d`.
* `add_le_iff_dvd` — no gap is shorter if and only if the numbers are multiples of `d`.
-/

namespace Nodeglow

variable {P : ℕ → Prop} {d k m n : ℕ}

/-- `m` is the last number before `n` with the property. -/
structure LastBefore (P : ℕ → Prop) (n m : ℕ) : Prop where
  lt : m < n
  holds : P m
  not_between : ∀ k, m < k → k < n → ¬P k

/-- `m` and `n` have the property, and no number between them has it. -/
def Successive (P : ℕ → Prop) (m n : ℕ) : Prop := LastBefore P n m ∧ P n

/-- The property holds of a number whose last number is at least `d` away. -/
def ReturnsWithin (P : ℕ → Prop) (d : ℕ) : Prop := ∀ m n, LastBefore P n m → m + d ≤ n → P n

namespace LastBefore

/-- The number itself, seen from the next one. -/
theorem self (h : P n) : LastBefore P (n + 1) n :=
  ⟨Nat.lt_succ_self n, h, fun _ hlow hhigh => absurd (Nat.le_of_lt_succ hhigh) (not_le.mpr hlow)⟩

/-- One step on, where the property does not hold. -/
theorem succ (h : LastBefore P n m) (hn : ¬P n) : LastBefore P (n + 1) m := by
  refine ⟨Nat.lt_succ_of_lt h.lt, h.holds, fun k hlow hhigh => ?_⟩
  rcases Nat.lt_succ_iff_lt_or_eq.mp hhigh with hlt | rfl
  · exact h.not_between k hlow hlt
  · exact hn

/-- Back to a number after the last one. -/
theorem restrict (h : LastBefore P n m) (hlow : m < k) (hhigh : k ≤ n) : LastBefore P k m :=
  ⟨hlow, h.holds, fun l hl hlk => h.not_between l hl (hlk.trans_le hhigh)⟩

/-- There is one, if the property holds of an earlier number. -/
theorem exists_of_lt (h : P k) (hk : k < n) : ∃ m, LastBefore P n m := by
  induction n, hk using Nat.le_induction with
  | base => exact ⟨k, self h⟩
  | succ n _ ih =>
    obtain ⟨m, hm⟩ := ih
    by_cases hn : P n
    · exact ⟨n, self hn⟩
    · exact ⟨m, hm.succ hn⟩

/-- **No gap is longer than `d`.** -/
theorem le_add (h : LastBefore P n m) (hreturns : ReturnsWithin P d) (hd : 0 < d) : n ≤ m + d := by
  by_contra hlt
  rw [not_le] at hlt
  have hlow : m < m + d := Nat.lt_add_of_pos_right hd
  exact h.not_between (m + d) hlow hlt (hreturns m (m + d) (h.restrict hlow hlt.le) le_rfl)

end LastBefore

/-- The number after a number with the property, where it holds again. -/
theorem exists_successive (h : P m) (hreturns : ReturnsWithin P d) (hd : 0 < d) :
    ∃ n, Successive P m n := by
  classical
  have hexists : ∃ n, m < n ∧ P n := by
    by_contra hnone
    have hlast : LastBefore P (m + d) m :=
      ⟨Nat.lt_add_of_pos_right hd, h, fun k hlow _ hk => hnone ⟨k, hlow, hk⟩⟩
    exact hnone ⟨m + d, hlast.lt, hreturns m (m + d) hlast le_rfl⟩
  obtain ⟨hlow, hn⟩ := Nat.find_spec hexists
  exact ⟨Nat.find hexists,
    ⟨hlow, h, fun k hk hlt hPk => Nat.find_min hexists hlt ⟨hk, hPk⟩⟩, hn⟩

/-- **No gap is shorter than `d`** if and only if the property holds of multiples of `d` only. -/
theorem add_le_iff_dvd (hzero : P 0) (hreturns : ReturnsWithin P d) (hd : 0 < d) :
    (∀ m n, Successive P m n → m + d ≤ n) ↔ ∀ n, P n → d ∣ n := by
  constructor
  · intro hgap n
    induction n using Nat.strong_induction_on with
    | _ n ih =>
      intro hn
      rcases Nat.eq_zero_or_pos n with rfl | hpos
      · exact Nat.dvd_zero d
      · obtain ⟨m, hm⟩ := LastBefore.exists_of_lt hzero hpos
        have hn' : n = m + d := le_antisymm (hm.le_add hreturns hd) (hgap m n ⟨hm, hn⟩)
        rw [hn']
        exact Nat.dvd_add (ih m hm.lt hm.holds) (Nat.dvd_refl d)
  · rintro hdvd m n ⟨hlast, hn⟩
    have hsub : d ≤ n - m :=
      Nat.le_of_dvd (Nat.sub_pos_of_lt hlast.lt) (Nat.dvd_sub (hdvd n hn) (hdvd m hlast.holds))
    have hlt := hlast.lt
    omega

end Nodeglow
