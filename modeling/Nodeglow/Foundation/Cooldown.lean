import Mathlib.Algebra.Order.Group.Defs
import Mathlib.Data.List.Pairwise

/-!
# Cooldowns

Events with a key and a time. An event starts a cooldown for its key, unless one is running: then it
is suppressed, and does not make the cooldown longer. So the events of a key that start a cooldown
are at least its length apart, and at most one of them is recent.

A table with the last start of every key decides the same, also if it forgets entries that are older
than a cooldown.

Lists of events have the last one first.

## Main definitions

* `starts` — the events that start a cooldown.
* `Suppressed` — a cooldown is running.
* `Recorded` — what a table of last starts has to say.

## Main results

* `eq_of_recent` — at most one start of a key is recent.
* `Recorded.suppressed_iff` — what the table decides.
* `Recorded.forget`, `Recorded.skip`, `Recorded.start` — the table is kept up.
-/

namespace Nodeglow.Cooldown

variable {α κ T : Type*} [DecidableEq κ] [AddCommGroup T] [LinearOrder T]
  (key : α → κ) (time : α → T) (w : T)

/-- The events that start a cooldown of the length `w`. -/
def starts : List α → List α
  | [] => []
  | x :: l =>
    if ∃ y ∈ starts l, key y = key x ∧ time x - time y < w then starts l else x :: starts l

/-- A cooldown for the key of an event is running. -/
def Suppressed (l : List α) (x : α) : Prop :=
  ∃ y ∈ starts key time w l, key y = key x ∧ time x - time y < w

instance (l : List α) (x : α) : Decidable (Suppressed key time w l x) := by
  unfold Suppressed
  infer_instance

variable {key time w} {l : List α} {x y y' : α}

theorem starts_cons_of_suppressed (h : Suppressed key time w l x) :
    starts key time w (x :: l) = starts key time w l := if_pos h

theorem starts_cons_of_not_suppressed (h : ¬Suppressed key time w l x) :
    starts key time w (x :: l) = x :: starts key time w l := if_neg h

theorem starts_subset : starts key time w l ⊆ l := by
  induction l with
  | nil => exact List.Subset.refl _
  | cons x l ih =>
    unfold starts
    split
    · exact fun y hy => List.mem_cons_of_mem x (ih hy)
    · exact List.cons_subset_cons x ih

/-- Two starts of one key are a cooldown apart. -/
theorem pairwise_starts : (starts key time w l).Pairwise fun y y' =>
    key y = key y' → w ≤ time y - time y' ∨ w ≤ time y' - time y := by
  induction l with
  | nil => exact .nil
  | cons x l ih =>
    by_cases hx : Suppressed key time w l x
    · rwa [starts_cons_of_suppressed hx]
    · rw [starts_cons_of_not_suppressed hx, List.pairwise_cons]
      refine ⟨fun y hy hkey => .inl (not_lt.mp fun hlt => hx ⟨y, hy, hkey.symm, hlt⟩), ih⟩

section Table

variable {now now' : T}

/-- **At most one start of a key is recent.** -/
theorem eq_of_recent [IsOrderedAddMonoid T] (hy : y ∈ starts key time w l)
    (hy' : y' ∈ starts key time w l) (hkey : key y = key y') (hpast : time y ≤ now)
    (hpast' : time y' ≤ now) (hrecent : now - time y < w) (hrecent' : now - time y' < w) :
    y = y' := by
  by_contra hne
  have hsymm : Std.Symm fun y y' : α =>
      key y = key y' → w ≤ time y - time y' ∨ w ≤ time y' - time y :=
    ⟨fun _ _ h heq => (h heq.symm).symm⟩
  rcases pairwise_starts.forall hy hy' hne hkey with hle | hle
  · exact absurd (hle.trans (sub_le_sub_right hpast _)) (not_le.mpr hrecent')
  · exact absurd (hle.trans (sub_le_sub_right hpast' _)) (not_le.mpr hrecent)

variable (key time w) in
/-- A table that has the last start of every key for which a cooldown is running, and only times of
starts. -/
structure Recorded (l : List α) (now : T) (table : κ → Option T) : Prop where
  past : ∀ y ∈ l, time y ≤ now
  recent : ∀ y ∈ starts key time w l, now - time y < w → table (key y) = some (time y)
  sound : ∀ k t, table k = some t → ∃ y ∈ starts key time w l, key y = k ∧ time y = t

variable {table : κ → Option T}

/-- **What the table decides.** -/
theorem Recorded.suppressed_iff (h : Recorded key time w l now table) (hx : time x = now) :
    (∃ t, table (key x) = some t ∧ now - t < w) ↔ Suppressed key time w l x := by
  constructor
  · rintro ⟨t, ht, hlt⟩
    obtain ⟨y, hy, hkey, rfl⟩ := h.sound _ _ ht
    exact ⟨y, hy, hkey, hx ▸ hlt⟩
  · rintro ⟨y, hy, hkey, hlt⟩
    rw [hx] at hlt
    exact ⟨time y, hkey ▸ h.recent y hy hlt, hlt⟩

/-- Time goes on. -/
theorem Recorded.advance [IsOrderedAddMonoid T] (h : Recorded key time w l now table)
    (hle : now ≤ now') : Recorded key time w l now' table where
  past y hy := (h.past y hy).trans hle
  recent y hy hlt := h.recent y hy ((sub_le_sub_right hle _).trans_lt hlt)
  sound := h.sound

/-- Entries that are older than a cooldown are forgotten. -/
theorem Recorded.forget (h : Recorded key time w l now table) (bound : T) (hbound : w ≤ bound) :
    Recorded key time w l now fun k => (table k).filter fun t => now - t ≤ bound where
  past := h.past
  recent y hy hlt := by
    rw [h.recent y hy hlt, Option.filter_some, if_pos]
    exact decide_eq_true (hlt.le.trans hbound)
  sound k t ht := h.sound k t (Option.filter_eq_some_iff.mp ht).1

/-- A suppressed event changes nothing. -/
theorem Recorded.skip (h : Recorded key time w l now table) (hx : time x = now)
    (hsuppressed : Suppressed key time w l x) : Recorded key time w (x :: l) now table where
  past := List.forall_mem_cons.mpr ⟨hx.le, h.past⟩
  recent := by
    rw [starts_cons_of_suppressed hsuppressed]
    exact h.recent
  sound := by
    rw [starts_cons_of_suppressed hsuppressed]
    exact h.sound

/-- A start is recorded. -/
theorem Recorded.start (h : Recorded key time w l now table) (hx : time x = now)
    (hstart : ¬Suppressed key time w l x) :
    Recorded key time w (x :: l) now (Function.update table (key x) (some now)) where
  past := List.forall_mem_cons.mpr ⟨hx.le, h.past⟩
  recent := by
    rw [starts_cons_of_not_suppressed hstart]
    refine List.forall_mem_cons.mpr ⟨fun _ => ?_, fun y hy hlt => ?_⟩
    · rw [Function.update_self, hx]
    · have hne : key y ≠ key x := fun hkey => hstart ⟨y, hy, hkey, hx ▸ hlt⟩
      rw [Function.update_of_ne hne, h.recent y hy hlt]
  sound k t ht := by
    rw [starts_cons_of_not_suppressed hstart]
    by_cases hk : k = key x
    · subst hk
      rw [Function.update_self] at ht
      exact ⟨x, List.mem_cons_self, rfl, hx.trans (Option.some.inj ht)⟩
    · rw [Function.update_of_ne hk] at ht
      obtain ⟨y, hy, hkey, htime⟩ := h.sound k t ht
      exact ⟨y, List.mem_cons_of_mem x hy, hkey, htime⟩

end Table

end Nodeglow.Cooldown
