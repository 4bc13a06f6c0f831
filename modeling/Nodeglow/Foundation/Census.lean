import Mathlib.Data.List.Nodup

/-!
# Counting by a property that changes for one

A list names the members of a group, each once, and a function gives each a state. The members are
counted by a property of their states. When the state of one member changes, or one leaves, the
count changes by that member alone; the lemmas say so as equations between natural numbers.

## Main results

* `Census.countP_update`, `Census.countP_update_of_notMem` — the state of one changes.
* `Census.countP_remove` — one leaves.
* `Census.countP_add_countP_le` — properties that exclude each other.
-/

namespace Nodeglow.Census

variable {ι τ β : Type*} [DecidableEq ι] {l : List (ι × τ)} {k : ι}

theorem countP_update_of_notMem (hk : k ∉ l.map Prod.fst) (f : ι → β) (b : β) (p : β → Bool) :
    l.countP (fun x => p (Function.update f k b x.1)) = l.countP fun x => p (f x.1) := by
  refine List.countP_congr fun x hx => ?_
  have hne : x.1 ≠ k := by
    rintro rfl
    exact hk (List.mem_map_of_mem hx)
  rw [Function.update_of_ne hne]

/-- The state of one member changes. -/
theorem countP_update (hl : (l.map Prod.fst).Nodup) (hk : k ∈ l.map Prod.fst) (f : ι → β) (b : β)
    (p : β → Bool) :
    l.countP (fun x => p (Function.update f k b x.1)) + (p (f k)).toNat =
      (l.countP fun x => p (f x.1)) + (p b).toNat := by
  induction l with
  | nil => cases hk
  | cons x l ih =>
    obtain ⟨hx, hl⟩ := List.nodup_cons.mp hl
    simp only [List.countP_cons]
    by_cases hxk : x.1 = k
    · rw [hxk] at hx ⊢
      rw [countP_update_of_notMem hx, Function.update_self]
      cases p b <;> cases p (f k) <;> simp
    · have hk' : k ∈ l.map Prod.fst := by
        rcases List.mem_cons.mp hk with heq | hmem
        · exact absurd heq.symm hxk
        · exact hmem
      rw [Function.update_of_ne hxk]
      have := ih hl hk'
      omega

/-- One member leaves. -/
theorem countP_remove (hl : (l.map Prod.fst).Nodup) (hk : k ∈ l.map Prod.fst) (p : ι → Bool) :
    (l.filter fun x => x.1 ≠ k).countP (fun x => p x.1) + (p k).toNat =
      l.countP fun x => p x.1 := by
  induction l with
  | nil => cases hk
  | cons x l ih =>
    obtain ⟨hx, hl⟩ := List.nodup_cons.mp hl
    by_cases hxk : x.1 = k
    · have hnone : (l.filter fun y => y.1 ≠ k) = l := by
        refine List.filter_eq_self.mpr fun y hy => ?_
        have hne : y.1 ≠ k := fun heq => hx (hxk ▸ heq ▸ List.mem_map_of_mem hy)
        simpa using hne
      rw [List.filter_cons_of_neg (by simpa using hxk), hnone, List.countP_cons, hxk]
      cases p k <;> simp
    · have hk' : k ∈ l.map Prod.fst := by
        rcases List.mem_cons.mp hk with heq | hmem
        · exact absurd heq.symm hxk
        · exact hmem
      rw [List.filter_cons_of_pos (by simpa using hxk), List.countP_cons, List.countP_cons]
      have := ih hl hk'
      omega

omit [DecidableEq ι] in
/-- No member is counted by two properties that exclude each other. -/
theorem countP_add_countP_le {α : Type*} {p q : α → Bool} (hpq : ∀ x, p x → ¬q x) (l : List α) :
    l.countP p + l.countP q ≤ l.length := by
  induction l with
  | nil => simp
  | cons x l ih =>
    have hx := hpq x
    rw [List.countP_cons, List.countP_cons, List.length_cons]
    split_ifs <;> first | omega | simp_all

end Nodeglow.Census
