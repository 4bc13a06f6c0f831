import Mathlib.Data.List.Basic
import Mathlib.Logic.Function.Iterate

/-!
# Truncating tables with what refers to them

`TRUNCATE x CASCADE` empties a table, every table with a foreign key to it, every table with a key
to one of these, and so on: whether any row refers to another one does not matter, nor whether the
checks of foreign keys are off.

Only the tables of a key count here, the one that refers before the one that is referred to.

## Main definitions

* `cascadeGroup` — the tables that are emptied.
* `truncate`, `truncateAll` — one statement, and several.

## Main results

* `isClosed_cascadeGroup`, `cascadeGroup_subset` — the group is the least one that is closed.
* `truncateAll_apply` — what several statements leave.
-/

namespace Nodeglow.Relational

variable {τ ρ : Type*} [DecidableEq τ] (keys : List (τ × τ))

/-- A round: the tables with a key to a table of the group are added. -/
def addReferencing (group : List τ) : List τ :=
  group ++ (keys.filter fun k => k.2 ∈ group && k.1 ∉ group).map Prod.fst

/-- The tables that a group of tables takes along. -/
def cascadeGroup (group : List τ) : List τ := (addReferencing keys)^[keys.length] group

/-- `TRUNCATE x CASCADE`. -/
def truncate (x : τ) (db : τ → List ρ) : τ → List ρ := fun y =>
  if y ∈ cascadeGroup keys [x] then [] else db y

/-- One statement after the other. -/
def truncateAll (xs : List τ) (db : τ → List ρ) : τ → List ρ :=
  xs.foldl (fun db x => truncate keys x db) db

/-- With a table a group holds all that have a key to it. -/
def IsClosed (group : List τ) : Prop := ∀ k ∈ keys, k.2 ∈ group → k.1 ∈ group

variable {keys} {group closed : List τ} {x y : τ}

theorem subset_addReferencing : group ⊆ addReferencing keys group :=
  List.subset_append_left _ _

theorem mem_addReferencing {k : τ × τ} (hk : k ∈ keys) (hparent : k.2 ∈ group) :
    k.1 ∈ addReferencing keys group := by
  by_cases hchild : k.1 ∈ group
  · exact subset_addReferencing hchild
  · refine List.mem_append_right _ (List.mem_map_of_mem (List.mem_filter.mpr ⟨hk, ?_⟩))
    simp [hparent, hchild]

theorem addReferencing_subset (hclosed : IsClosed keys closed) (h : group ⊆ closed) :
    addReferencing keys group ⊆ closed := by
  refine List.append_subset.mpr ⟨h, fun y hy => ?_⟩
  obtain ⟨k, hk, rfl⟩ := List.mem_map.mp hy
  obtain ⟨hmem, hnew⟩ := List.mem_filter.mp hk
  simp only [Bool.and_eq_true, decide_eq_true_eq] at hnew
  exact hclosed k hmem (h hnew.1)

theorem IsClosed.addReferencing (h : IsClosed keys group) :
    IsClosed keys (addReferencing keys group) := fun _ hk hparent =>
  mem_addReferencing hk (addReferencing_subset h (List.Subset.refl _) hparent)

theorem IsClosed.iterate (h : IsClosed keys group) (n : ℕ) :
    IsClosed keys ((Relational.addReferencing keys)^[n] group) := by
  induction n generalizing group with
  | zero => exact h
  | succ n ih => exact ih h.addReferencing

theorem countP_lt_countP {α : Type*} {p q : α → Bool} {l : List α} {a : α}
    (hpq : ∀ x ∈ l, p x = true → q x = true) (ha : a ∈ l) (hp : p a = false) (hq : q a = true) :
    l.countP p < l.countP q := by
  obtain ⟨front, back, rfl⟩ := List.append_of_mem ha
  have hfront : front.countP p ≤ front.countP q :=
    List.countP_mono_left fun x hx => hpq x (List.mem_append_left _ hx)
  have hback : back.countP p ≤ back.countP q :=
    List.countP_mono_left fun x hx => hpq x (List.mem_append_right _ (List.mem_cons_of_mem _ hx))
  rw [List.countP_append, List.countP_append, List.countP_cons, List.countP_cons, hp, hq]
  simp only [Bool.false_eq_true, if_false, if_true]
  omega

/-- A round that is not the last one leaves fewer keys of tables outside. -/
theorem countP_addReferencing_lt (h : ¬IsClosed keys group) :
    keys.countP (fun k => k.1 ∉ addReferencing keys group) <
      keys.countP (fun k => k.1 ∉ group) := by
  simp only [IsClosed, not_forall] at h
  obtain ⟨k, hk, hparent, hchild⟩ := h
  refine countP_lt_countP (fun k' _ hout => ?_) hk ?_ (decide_eq_true hchild)
  · exact decide_eq_true fun hin => of_decide_eq_true hout (subset_addReferencing hin)
  · exact decide_eq_false (not_not_intro (mem_addReferencing hk hparent))

theorem isClosed_iterate (n : ℕ) (h : keys.countP (fun k => k.1 ∉ group) ≤ n) :
    IsClosed keys ((addReferencing keys)^[n] group) := by
  induction n generalizing group with
  | zero =>
    intro k hk _
    have hout := List.countP_eq_zero.mp (Nat.le_zero.mp h) k hk
    simpa using hout
  | succ n ih =>
    by_cases hclosed : IsClosed keys group
    · exact hclosed.iterate (n + 1)
    · exact ih (by have := countP_addReferencing_lt hclosed; omega)

/-- **The group is closed.** -/
theorem isClosed_cascadeGroup (group : List τ) : IsClosed keys (cascadeGroup keys group) :=
  isClosed_iterate keys.length List.countP_le_length

theorem subset_cascadeGroup (group : List τ) : group ⊆ cascadeGroup keys group := by
  have hiterate (n : ℕ) (g : List τ) : g ⊆ (addReferencing keys)^[n] g := by
    induction n generalizing g with
    | zero => exact List.Subset.refl g
    | succ n ih => exact List.Subset.trans subset_addReferencing (ih _)
  exact hiterate _ _

/-- **The group is the least** one that is closed. -/
theorem cascadeGroup_subset (hclosed : IsClosed keys closed) (h : group ⊆ closed) :
    cascadeGroup keys group ⊆ closed := by
  have hiterate (n : ℕ) {g : List τ} (hg : g ⊆ closed) : (addReferencing keys)^[n] g ⊆ closed := by
    induction n generalizing g with
    | zero => exact hg
    | succ n ih => exact ih (addReferencing_subset hclosed hg)
  exact hiterate _ h

/-- **Several statements** empty what one of them does, and leave the rest. -/
theorem truncateAll_apply (xs : List τ) (db : τ → List ρ) (y : τ) :
    truncateAll keys xs db y =
      if ∃ x ∈ xs, y ∈ cascadeGroup keys [x] then [] else db y := by
  induction xs generalizing db with
  | nil => simp [truncateAll]
  | cons x xs ih =>
    have hrest : truncateAll keys (x :: xs) db y = truncateAll keys xs (truncate keys x db) y := rfl
    rw [hrest, ih, truncate]
    by_cases hx : y ∈ cascadeGroup keys [x] <;> simp [hx]

end Nodeglow.Relational
