import Mathlib.Data.List.Nodup

/-!
# Loops whose steps may fail

A loop over a list whose steps return or raise: `foldlM` carries a state along, `mapM` replaces
every entry. Such a loop returns when every step does. For a loop with a state this can be said of
the state before the loop if the steps are independent, so that none of them changes whether another
one fails.

## Main results

* `bind_eq_ok`, `foldlM_cons_eq_ok`, `mapM_cons_eq_ok` — one step, and the rest.
* `exists_foldlM_iff`, `exists_mapM_iff` — exactly when a loop returns.
* `rel_of_foldlM` — what every step preserves, the loop does.
-/

namespace Nodeglow.Fallible

universe u

variable {α ε : Type*} {β γ : Type u}

theorem bind_eq_ok {x : Except ε β} {f : β → Except ε γ} {c : γ} :
    x >>= f = .ok c ↔ ∃ b, x = .ok b ∧ f b = .ok c := by
  cases x with
  | error e => exact ⟨nofun, fun ⟨_, h, _⟩ => nomatch h⟩
  | ok b => exact ⟨fun h => ⟨b, rfl, h⟩, fun ⟨_, heq, h⟩ => Except.ok.inj heq ▸ h⟩

section Fold

variable {f : β → α → Except ε β} {x : α} {l : List α} {b b' : β}

theorem foldlM_cons_eq_ok :
    (x :: l).foldlM f b = .ok b' ↔
      ∃ between, f b x = .ok between ∧ l.foldlM f between = .ok b' := by
  rw [List.foldlM_cons, bind_eq_ok]

/-- **What the steps preserve**, the loop does. -/
theorem rel_of_foldlM {P : β → β → Prop} (hrefl : ∀ b, P b b)
    (htrans : ∀ a b c, P a b → P b c → P a c)
    (hstep : ∀ x ∈ l, ∀ b b', f b x = .ok b' → P b b') (h : l.foldlM f b = .ok b') : P b b' := by
  induction l generalizing b with
  | nil =>
    obtain rfl := Except.ok.inj h
    exact hrefl b
  | cons x l ih =>
    obtain ⟨between, hx, hl⟩ := foldlM_cons_eq_ok.mp h
    exact htrans _ _ _ (hstep x List.mem_cons_self _ _ hx)
      (ih (fun y hy => hstep y (List.mem_cons_of_mem x hy)) hl)

/-- Steps that change nothing. -/
theorem foldlM_eq_self (h : ∀ x ∈ l, f b x = .ok b) : l.foldlM f b = .ok b := by
  induction l with
  | nil => rfl
  | cons x l ih =>
    exact foldlM_cons_eq_ok.mpr
      ⟨b, h x List.mem_cons_self, ih fun y hy => h y (List.mem_cons_of_mem x hy)⟩

/-- **When a loop of independent steps returns.** -/
theorem exists_foldlM_iff {P : α → β → Prop} (hl : l.Nodup)
    (hstep : ∀ x ∈ l, ∀ b, (∃ b', f b x = .ok b') ↔ P x b)
    (hother : ∀ x ∈ l, ∀ y ∈ l, x ≠ y → ∀ b b', f b x = .ok b' → (P y b' ↔ P y b)) :
    (∃ b', l.foldlM f b = .ok b') ↔ ∀ x ∈ l, P x b := by
  induction l generalizing b with
  | nil => exact ⟨fun _ x hx => absurd hx List.not_mem_nil, fun _ => ⟨b, rfl⟩⟩
  | cons x l ih =>
    obtain ⟨hx, hl⟩ := List.nodup_cons.mp hl
    have hrest (between : β) (h : f b x = .ok between) :
        (∃ b', l.foldlM f between = .ok b') ↔ ∀ y ∈ l, P y b := by
      rw [ih hl (fun y hy => hstep y (List.mem_cons_of_mem x hy))
        fun y hy z hz => hother y (List.mem_cons_of_mem x hy) z (List.mem_cons_of_mem x hz)]
      refine forall₂_congr fun y hy => hother x List.mem_cons_self y (List.mem_cons_of_mem x hy)
        (fun heq => hx (heq ▸ hy)) b between h
    rw [List.forall_mem_cons, ← hstep x List.mem_cons_self b]
    constructor
    · rintro ⟨b', h⟩
      obtain ⟨between, hfirst, htail⟩ := foldlM_cons_eq_ok.mp h
      exact ⟨⟨between, hfirst⟩, (hrest between hfirst).mp ⟨b', htail⟩⟩
    · rintro ⟨⟨between, hfirst⟩, hall⟩
      obtain ⟨b', htail⟩ := (hrest between hfirst).mpr hall
      exact ⟨b', foldlM_cons_eq_ok.mpr ⟨between, hfirst, htail⟩⟩

end Fold

section Map

variable {f : α → Except ε γ} {x : α} {l : List α} {l' : List γ}

theorem mapM_cons_eq_ok :
    (x :: l).mapM f = .ok l' ↔ ∃ y rest, f x = .ok y ∧ l.mapM f = .ok rest ∧ l' = y :: rest := by
  rw [List.mapM_cons, bind_eq_ok]
  refine exists_congr fun y => ?_
  rw [bind_eq_ok]
  constructor
  · rintro ⟨hy, rest, hrest, heq⟩
    exact ⟨rest, hy, hrest, (Except.ok.inj heq).symm⟩
  · rintro ⟨rest, hy, hrest, rfl⟩
    exact ⟨hy, rest, hrest, rfl⟩

theorem exists_mapM_iff : (∃ l', l.mapM f = .ok l') ↔ ∀ x ∈ l, ∃ y, f x = .ok y := by
  induction l with
  | nil => exact ⟨fun _ x hx => absurd hx List.not_mem_nil, fun _ => ⟨[], rfl⟩⟩
  | cons x l ih =>
    rw [List.forall_mem_cons, ← ih]
    constructor
    · rintro ⟨l', h⟩
      obtain ⟨y, rest, hy, hrest, -⟩ := mapM_cons_eq_ok.mp h
      exact ⟨⟨y, hy⟩, rest, hrest⟩
    · rintro ⟨⟨y, hy⟩, rest, hrest⟩
      exact ⟨y :: rest, mapM_cons_eq_ok.mpr ⟨y, rest, hy, hrest, rfl⟩⟩

/-- Steps that change nothing. -/
theorem mapM_eq_self {f : γ → Except ε γ} {l : List γ} (h : ∀ x ∈ l, f x = .ok x) :
    l.mapM f = .ok l := by
  induction l with
  | nil => rfl
  | cons x l ih =>
    obtain ⟨hx, hl⟩ := List.forall_mem_cons.mp h
    exact mapM_cons_eq_ok.mpr ⟨x, l, hx, ih hl, rfl⟩

end Map

end Nodeglow.Fallible
