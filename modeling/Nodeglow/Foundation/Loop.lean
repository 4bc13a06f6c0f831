import Mathlib.Data.PFun

/-!
# Loops without a bound

A loop whose body ends it with a result or goes on with a new state, as `while True` with `break`
and `raise` does. It may go on for ever: what it returns is the least fixed point of the body, and
it ends where this is defined.

## Main definitions

* `Loop.run`, `Loop.Ends`.

## Main results

* `Loop.mem_run_iff`, `Loop.ends_iff` — one turn of the body, and the rest.
* `Loop.not_ends` — where every turn leads to another, the loop does not end.
-/

namespace Nodeglow.Loop

variable {σ ρ : Type*} {body : σ → ρ ⊕ σ} {s s' : σ} {r r' : ρ}

/-- The result of a loop, if it ends. -/
def run (body : σ → ρ ⊕ σ) : σ →. ρ := PFun.fix (body : σ →. ρ ⊕ σ)

/-- The loop ends. -/
def Ends (body : σ → ρ ⊕ σ) (s : σ) : Prop := (run body s).Dom

theorem ends_iff_exists : Ends body s ↔ ∃ r, r ∈ run body s := Part.dom_iff_mem

theorem mem_run_iff :
    r ∈ run body s ↔ body s = .inl r ∨ ∃ s', body s = .inr s' ∧ r ∈ run body s' := by
  rw [run, PFun.mem_fix_iff]
  simp only [PFun.coe_val, Part.mem_some_iff, eq_comm]

/-- A turn that ends the loop. -/
theorem mem_run_of_inl (h : body s = .inl r) : r' ∈ run body s ↔ r' = r := by
  rw [mem_run_iff, h]
  simp [eq_comm]

/-- A turn after which it goes on. -/
theorem mem_run_of_inr (h : body s = .inr s') : r ∈ run body s ↔ r ∈ run body s' := by
  rw [mem_run_iff, h]
  simp

theorem ends_of_inl (h : body s = .inl r) : Ends body s :=
  ends_iff_exists.mpr ⟨r, (mem_run_of_inl h).mpr rfl⟩

theorem ends_iff (h : body s = .inr s') : Ends body s ↔ Ends body s' := by
  simp only [ends_iff_exists, mem_run_of_inr h]

/-- **The invariant rule**: what every turn preserves holds of the states of the loop, so it has the
results of states with the invariant only. -/
theorem exists_of_mem_run {I : σ → Prop} (hI : ∀ s s', I s → body s = .inr s' → I s') (hs : I s)
    (hr : r ∈ run body s) : ∃ s', I s' ∧ body s' = .inl r := by
  refine PFun.fixInduction' (C := fun s => I s → ∃ s', I s' ∧ body s' = .inl r) hr ?_ ?_ hs
  · intro s hstop hs
    exact ⟨s, hs, (Part.mem_some_iff.mp hstop).symm⟩
  · intro s s' _ hnext ih hs
    exact ih (hI s s' hs (Part.mem_some_iff.mp hnext).symm)

/-- **A loop without end**: in the states with the invariant no turn ends it. -/
theorem not_ends {I : σ → Prop} (hI : ∀ s, I s → ∃ s', body s = .inr s' ∧ I s') (hs : I s) :
    ¬Ends body s := by
  intro hends
  obtain ⟨r, hr⟩ := ends_iff_exists.mp hends
  have hstep : ∀ s s', I s → body s = .inr s' → I s' := by
    intro s s' hs heq
    obtain ⟨t, ht, hI'⟩ := hI s hs
    exact Sum.inr.inj (ht.symm.trans heq) ▸ hI'
  obtain ⟨t, ht, hstop⟩ := exists_of_mem_run hstep hs hr
  obtain ⟨t', hgo, -⟩ := hI t ht
  rw [hstop] at hgo
  cases hgo

end Nodeglow.Loop
