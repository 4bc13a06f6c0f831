import Mathlib.Data.List.Basic

/-!
# Finite runs of labelled transition relations

A system is given by a relation `step s a s'`: the label `a` can take the state `s` to `s'`.
A *run* is a finite sequence of steps, recorded by the list of its labels. This file provides the
rules by which facts about one step become facts about every run: an invariant preserved by each
step holds in every state reached (`Run.invariant`), also when only the steps that meet a side
condition are considered (`Guarded`), and a run can be cut and joined at any place.

## Main definitions

* `Run` — the states joined by a list of labels.
* `Guarded` — the steps of a relation whose source state and label meet a condition.

## Main results

* `Run.invariant` — the induction rule for invariants.
* `Run.append`, `Run.exists_middle_of_append` — joining and cutting runs.
* `Run.guarded_mono`, `Run.guarded_of_forall` — side conditions.
* `Run.of_foldlM`, `Run.guarded_of_foldlM` — the runs of a step function.
* `made_of_guard`, `made_of_guard_not` — the steps of a step function that asks for a condition.
-/

namespace Nodeglow

variable {σ α : Type*}

/-- The state `s'` is reached from `s` by the steps labelled `l`, the head of the list first. -/
inductive Run (step : σ → α → σ → Prop) : σ → List α → σ → Prop
  | nil (s : σ) : Run step s [] s
  | cons {s t u : σ} {a : α} {l : List α} (h : step s a t) (hl : Run step t l u) :
      Run step s (a :: l) u

/-- The steps taken from a state and under a label that meet the condition `C`. -/
def Guarded (C : σ → α → Prop) (step : σ → α → σ → Prop) (s : σ) (a : α) (s' : σ) : Prop :=
  C s a ∧ step s a s'

/-- A step function that asks for a condition has made its step. -/
theorem made_of_guard {p : Prop} [Decidable p] {s s' : σ}
    (h : (if p then some s else none) = some s') : p ∧ s = s' :=
  (Option.ite_none_right_eq_some.mp h).imp_right Option.some.inj

theorem made_of_guard_not {p : Prop} [Decidable p] {s s' : σ}
    (h : (if p then none else some s) = some s') : ¬ p ∧ s = s' :=
  (Option.ite_none_left_eq_some.mp h).imp_right Option.some.inj

namespace Run

variable {step : σ → α → σ → Prop}

theorem single {s t : σ} {a : α} (h : step s a t) : Run step s [a] t :=
  .cons h (.nil t)

/-- Two runs that meet in a state are one run. -/
theorem append {s t u : σ} {l l' : List α} (h : Run step s l t) (h' : Run step t l' u) :
    Run step s (l ++ l') u := by
  induction h with
  | nil => exact h'
  | cons ha _ ih => exact .cons ha (ih h')

/-- A run can be cut at any of its labels. -/
theorem exists_middle_of_append {s u : σ} {l l' : List α} (h : Run step s (l ++ l') u) :
    ∃ t, Run step s l t ∧ Run step t l' u := by
  induction l generalizing s with
  | nil => exact ⟨s, .nil s, h⟩
  | cons a l ih =>
    cases h with
    | cons ha hl =>
      obtain ⟨t, ht, hu⟩ := ih hl
      exact ⟨t, .cons ha ht, hu⟩

/-- **The invariant rule.** A property that every step preserves holds at the end of every run
that starts in a state with the property. -/
theorem invariant {I : σ → Prop} (hstep : ∀ s a s', I s → step s a s' → I s')
    {s u : σ} {l : List α} (h : Run step s l u) (hs : I s) : I u := by
  induction h with
  | nil => exact hs
  | cons ha _ ih => exact ih (hstep _ _ _ hs ha)

/-- The invariant rule for runs whose labels all have a property. -/
theorem invariant_of_forall {I : σ → Prop} {P : α → Prop}
    (hstep : ∀ s a s', P a → I s → step s a s' → I s') {s u : σ} {l : List α}
    (h : Run step s l u) (hl : ∀ a ∈ l, P a) (hs : I s) : I u := by
  induction h with
  | nil => exact hs
  | cons ha _ ih =>
    obtain ⟨hhead, htail⟩ := List.forall_mem_cons.mp hl
    exact ih htail (hstep _ _ _ hhead hs ha)

/-- The run of a step function along a list of labels, where every step has a value. -/
theorem of_foldlM {step : σ → α → Option σ} {s u : σ} {l : List α}
    (h : l.foldlM step s = some u) : Run (fun s a s' => step s a = some s') s l u := by
  induction l generalizing s with
  | nil =>
    obtain rfl := Option.some.inj h
    exact .nil s
  | cons a l ih =>
    obtain ⟨t, ht, hl⟩ := Option.bind_eq_some_iff.mp h
    exact .cons ht (ih hl)

/-- The run of a step function whose steps all meet a condition. -/
theorem guarded_of_foldlM {C : σ → α → Prop} [∀ s a, Decidable (C s a)] {step : σ → α → Option σ}
    {s u : σ} {l : List α} (h : l.foldlM (fun s a => if C s a then step s a else none) s = some u) :
    Run (Guarded C fun s a s' => step s a = some s') s l u := by
  have hrun := of_foldlM h
  clear h
  induction hrun with
  | nil s => exact .nil s
  | cons ha _ ih => exact .cons (Option.ite_none_right_eq_some.mp ha) ih

/-- Where an invariant holds, one condition may imply another: a run whose steps meet the first is a
run whose steps meet the second. -/
theorem guarded_mono {C D : σ → α → Prop} {I : σ → Prop}
    (hstep : ∀ s a s', I s → Guarded C step s a s' → I s') (hCD : ∀ s a, I s → C s a → D s a)
    {s u : σ} {l : List α} (h : Run (Guarded C step) s l u) (hs : I s) :
    Run (Guarded D step) s l u := by
  induction h with
  | nil s => exact .nil s
  | cons ha _ ih => exact .cons ⟨hCD _ _ hs ha.1, ha.2⟩ (ih (hstep _ _ _ hs ha))

/-- A run whose labels all meet the condition, in whatever state. -/
theorem guarded_of_forall {C : σ → α → Prop} {s u : σ} {l : List α} (h : Run step s l u)
    (hl : ∀ a ∈ l, ∀ s, C s a) : Run (Guarded C step) s l u := by
  induction h with
  | nil s => exact .nil s
  | cons ha _ ih =>
    obtain ⟨hhead, htail⟩ := List.forall_mem_cons.mp hl
    exact .cons ⟨hhead _, ha⟩ (ih htail)

/-- A run of the guarded relation is a run of the relation. -/
theorem of_guarded {C : σ → α → Prop} {s u : σ} {l : List α} (h : Run (Guarded C step) s l u) :
    Run step s l u := by
  induction h with
  | nil s => exact .nil s
  | cons ha _ ih => exact .cons ha.2 ih

end Run

end Nodeglow
