import Mathlib.Data.List.Nodup
import Mathlib.Data.List.TakeWhile

/-!
# Round-robin lists

A round-robin scheduler serves the front of a list and puts whoever is served, or passed over, at
its back. `turnsBefore b a l` is the number of turns that `a` has before the first turn of `b`. It
falls by the turns that `a` takes while `b` keeps its place, and nothing that happens at the back
of the list changes it.

## Main results

* `turnsBefore_le_one` — in a list without duplicates `a` has at most one turn before `b`.
* `turnsBefore_cons`, `turnsBefore_append` — serving the front, and appending at the back.
-/

namespace Nodeglow.RoundRobin

variable {α : Type*} [DecidableEq α]

/-- The number of turns of `a` before the first turn of `b`. -/
def turnsBefore (b a : α) (l : List α) : ℕ := (l.takeWhile (· ≠ b)).count a

/-- A turn of another than `b` at the front. -/
theorem turnsBefore_cons {b c : α} (h : c ≠ b) (a : α) (l : List α) :
    turnsBefore b a (c :: l) = turnsBefore b a l + [c].count a := by
  rw [turnsBefore, List.takeWhile_cons_of_pos (by simpa using h), List.count_cons, turnsBefore,
    List.count_singleton]

/-- Whoever comes behind `b` has no turn before `b`. -/
theorem turnsBefore_append {b : α} {l : List α} (h : b ∈ l) (a : α) (l' : List α) :
    turnsBefore b a (l ++ l') = turnsBefore b a l := by
  induction l with
  | nil => exact absurd h List.not_mem_nil
  | cons c l ih =>
    by_cases hc : c = b
    · simp [turnsBefore, hc]
    · have hmem : b ∈ l := (List.mem_cons.mp h).resolve_left fun heq => hc heq.symm
      rw [List.cons_append, turnsBefore_cons hc, turnsBefore_cons hc, ih hmem]

/-- Appending changes nothing as long as `b` is in the list then. -/
theorem turnsBefore_concat {b c : α} {l : List α} (h : b ∈ l ++ [c]) (a : α) :
    turnsBefore b a (l ++ [c]) = turnsBefore b a l := by
  by_cases hmem : b ∈ l
  · exact turnsBefore_append hmem a [c]
  · have hc : b = c := by simpa [hmem] using h
    have hl : ∀ x ∈ l, decide (x ≠ b) = true := fun x hx => decide_eq_true fun heq => hmem (heq ▸ hx)
    rw [turnsBefore, List.takeWhile_append_of_pos hl, turnsBefore, List.takeWhile_cons_of_neg (by
      simp [hc]), List.append_nil, List.takeWhile_eq_self_iff.mpr hl]

theorem turnsBefore_le_one {l : List α} (h : l.Nodup) (b a : α) : turnsBefore b a l ≤ 1 :=
  Nat.le_trans ((List.takeWhile_sublist _).count_le a) (List.nodup_iff_count_le_one.mp h a)

end Nodeglow.RoundRobin
