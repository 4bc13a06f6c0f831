import Mathlib.Data.Finset.Card

/-!
# Parent maps

A map that gives a parent to some nodes, and what is above a node. A map need not be a forest: a
node can be above itself, and then it is above all that is above it.

## Main definitions

* `ParentMap.Above`, `ParentMap.Acyclic`.

## Main results

* `ParentMap.Above.swap` — what is above a node on a cycle is on the cycle.
* `ParentMap.exists_top` — where no node of a set is above itself, one of them has none above it.
* `ParentMap.acyclic_update_iff` — when a new parent makes no cycle.
-/

namespace Nodeglow.ParentMap

universe u

variable {κ : Type u} {up : κ → Option κ} {a b c p : κ}

/-- `b` is the parent of `a`, the parent of its parent, and so on. -/
def Above (up : κ → Option κ) : κ → κ → Prop := Relation.TransGen fun x y => up x = some y

/-- No node is above itself. -/
def Acyclic (up : κ → Option κ) : Prop := ∀ a, ¬Above up a a

theorem Above.trans (hab : Above up a b) (hbc : Above up b c) : Above up a c :=
  Relation.TransGen.trans hab hbc

theorem above_of_parent (h : up a = some b) : Above up a b := .single h

/-- The first step up. -/
theorem above_iff : Above up a b ↔ ∃ p, up a = some p ∧ (p = b ∨ Above up p b) := by
  rw [Above, Relation.TransGen.head'_iff]
  simp only [Relation.reflTransGen_iff_eq_or_transGen, eq_comm (a := b)]

/-- The parent of a node is all that is above it, up to what is above the parent. -/
theorem above_iff_of_parent (h : up a = some p) : Above up a b ↔ p = b ∨ Above up p b := by
  rw [above_iff]
  constructor
  · rintro ⟨q, hq, hb⟩
    obtain rfl := Option.some.inj (h.symm.trans hq)
    exact hb
  · exact fun hb => ⟨p, h, hb⟩

theorem not_above_of_none (h : up a = none) : ¬Above up a b := by
  rw [above_iff]
  rintro ⟨p, hp, -⟩
  simp [h] at hp

/-- What a set that has the parents of its members has of a node, it has of all above the node. -/
theorem mem_of_above {s : Set κ} (hs : ∀ x ∈ s, ∀ y, up x = some y → y ∈ s) (ha : a ∈ s)
    (h : Above up a b) : b ∈ s := by
  induction h with
  | single hstep => exact hs a ha _ hstep
  | tail _ hstep ih => exact hs _ ih _ hstep

/-- **A cycle** goes back from what is above its nodes. -/
theorem Above.swap (hcycle : Above up a a) (h : Above up a b) : Above up b a := by
  refine mem_of_above (s := {x | Above up x a}) (fun x hx y hy => ?_) hcycle h
  rcases (above_iff_of_parent hy).mp hx with rfl | habove
  · exact hcycle
  · exact habove

/-- **Where no node of a set is above itself**, a node below one of the set is below one that has
none of the set above it. -/
theorem exists_top {s : Finset κ} (hs : ∀ x ∈ s, ¬Above up x x) (hb : b ∈ s) (h : Above up a b) :
    ∃ t ∈ s, Above up a t ∧ ∀ x ∈ s, ¬Above up t x := by
  classical
  -- The nodes of the set above `b` get fewer with each step up.
  induction hn : (s.filter fun x => Above up b x).card using Nat.strong_induction_on
    generalizing b with
  | _ n ih =>
    by_cases htop : ∀ x ∈ s, ¬Above up b x
    · exact ⟨b, hb, h, htop⟩
    · push Not at htop
      obtain ⟨x, hx, hbx⟩ := htop
      have hlt : (s.filter fun y => Above up x y).card < n := by
        rw [← hn]
        refine Finset.card_lt_card (Finset.ssubset_iff_subset_ne.mpr ⟨fun y hy => ?_, fun heq => ?_⟩)
        · have hxy := (Finset.mem_filter.mp hy).2
          exact Finset.mem_filter.mpr ⟨(Finset.mem_filter.mp hy).1, hbx.trans hxy⟩
        · have hmem := Finset.mem_filter.mpr ⟨hx, hbx⟩
          rw [← heq] at hmem
          exact hs x hx (Finset.mem_filter.mp hmem).2
      exact ih _ hlt hx (h.trans hbx) rfl

section Update

variable [DecidableEq κ]

/-- A step up in a map with a new parent. -/
theorem update_eq_some (hc : up c = none) {x y : κ} :
    Function.update up c (some p) x = some y ↔ x = c ∧ y = p ∨ up x = some y := by
  rw [Function.update_apply]
  split_ifs with hx
  · subst hx
    simp [hc, eq_comm]
  · simp [hx]

theorem Above.update (hc : up c = none) (h : Above up a b) :
    Above (Function.update up c (some p)) a b :=
  Relation.TransGen.mono (fun _ _ hstep => (update_eq_some hc).mpr (.inr hstep)) a b h

/-- A way up that takes the new step passes the node, and goes on from its new parent. -/
theorem above_of_above_update (hc : up c = none)
    (h : Above (Function.update up c (some p)) a b) :
    Above up a b ∨ (a = c ∨ Above up a c) ∧ (p = b ∨ Above up p b) := by
  induction h with
  | single hstep =>
    rcases (update_eq_some hc).mp hstep with ⟨rfl, rfl⟩ | hstep
    · exact .inr ⟨.inl rfl, .inl rfl⟩
    · exact .inl (.single hstep)
  | tail _ hstep ih =>
    rcases (update_eq_some hc).mp hstep with ⟨rfl, rfl⟩ | hstep
    · rcases ih with hold | ⟨hto, -⟩
      · exact .inr ⟨.inr hold, .inl rfl⟩
      · exact .inr ⟨hto, .inl rfl⟩
    · rcases ih with hold | ⟨hto, rfl | hfrom⟩
      · exact .inl (.tail hold hstep)
      · exact .inr ⟨hto, .inr (.single hstep)⟩
      · exact .inr ⟨hto, .inr (.tail hfrom hstep)⟩

/-- **A new parent makes no cycle** if and only if it is neither the node nor below it. -/
theorem acyclic_update_iff (hc : up c = none) : Acyclic (Function.update up c (some p)) ↔
    Acyclic up ∧ p ≠ c ∧ ¬Above up p c := by
  have hnew : Above (Function.update up c (some p)) c p :=
    above_of_parent ((update_eq_some hc).mpr (.inl ⟨rfl, rfl⟩))
  constructor
  · intro h
    refine ⟨fun a ha => h a (ha.update hc), ?_, fun hp => h c (hnew.trans (hp.update hc))⟩
    rintro rfl
    exact h p hnew
  · rintro ⟨hup, hne, hbelow⟩ a ha
    rcases above_of_above_update hc ha with hold | ⟨hto, rfl | hfrom⟩
    · exact hup a hold
    · exact hto.elim hne hbelow
    · rcases hto with rfl | hto
      · exact hbelow hfrom
      · exact hbelow (hfrom.trans hto)

end Update

end Nodeglow.ParentMap
