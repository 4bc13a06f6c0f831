import Mathlib.Data.List.Basic

/-!
# Streaks

The streak of a property at the end of a history is the number of its latest entries in a row that
have the property. Histories are lists with the latest entry first.

## Main results

* `streak_cons` — a counter that a program keeps for a streak.
* `le_streak_iff` — what a streak of some length means.
-/

namespace Nodeglow

variable {α : Type*} {p : α → Bool} {a : α} {past : List α} {n : ℕ}

/-- The number of latest entries in a row with a property. -/
def streak (p : α → Bool) (past : List α) : ℕ := (past.takeWhile p).length

@[simp] theorem streak_nil : streak p [] = 0 := rfl

/-- One more entry continues the streak or ends it. -/
theorem streak_cons (p : α → Bool) (a : α) (past : List α) :
    streak p (a :: past) = if p a then streak p past + 1 else 0 := by
  unfold streak
  rw [List.takeWhile_cons]
  split <;> rfl

theorem streak_congr {q : α → Bool} (hpq : ∀ a ∈ past, p a = q a) :
    streak p past = streak q past := by
  induction past with
  | nil => rfl
  | cons a past ih =>
    obtain ⟨ha, hpast⟩ := List.forall_mem_cons.mp hpq
    rw [streak_cons, streak_cons, ha, ih hpast]

/-- A streak has some length when that many entries exist and have the property. -/
theorem le_streak_iff : n ≤ streak p past ↔ n ≤ past.length ∧ ∀ a ∈ past.take n, p a = true := by
  induction past generalizing n with
  | nil => cases n <;> simp
  | cons a past ih =>
    cases n with
    | zero => simp
    | succ n =>
      rw [streak_cons]
      by_cases ha : p a = true
      · simp [ha, ih]
      · simp [ha]

end Nodeglow
