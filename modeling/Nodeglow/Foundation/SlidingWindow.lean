import Mathlib.Algebra.Order.Group.Defs
import Mathlib.Data.List.Basic

/-!
# Lists of times seen through a sliding window

Times are the elements of a linearly ordered commutative group. The window of length `w` that ends
at the time `t` is the half-open interval `(t - w, t]`. For a list whose entries are not after `t`,
the entries in this window are those after `t - w` (`recent`). As the end moves on, entries leave
and none comes back, so a list may be pruned at any time without changing what later windows show
(`recent_recent`).

## Main definitions

* `recent` — the entries after the start of the window that ends at a time.
* `windowFrom` — the entries in the window that starts at a time.

## Main results

* `recent_recent`, `recent_eq_of_le` — pruning, and the passage of time.
* `length_windowFrom_append_singleton_le` — appending entries only while fewer than `m` are recent
  keeps every window at `m` entries or less.
-/

namespace Nodeglow.SlidingWindow

variable {T : Type*} [AddCommGroup T] [LinearOrder T]

/-- The entries after the start of the window of length `w` that ends at `t`. -/
def recent (w t : T) (l : List T) : List T := l.filter fun x => t - w < x

/-- The entries in the window of length `w` that starts at `a`. -/
def windowFrom (w a : T) (l : List T) : List T := l.filter fun x => a < x ∧ x ≤ a + w

@[simp]
theorem mem_recent {w t x : T} {l : List T} : x ∈ recent w t l ↔ x ∈ l ∧ t - w < x := by
  simp [recent]

@[simp]
theorem recent_nil (w t : T) : recent w t [] = [] := rfl

theorem recent_append (w t : T) (l l' : List T) :
    recent w t (l ++ l') = recent w t l ++ recent w t l' :=
  List.filter_append ..

theorem recent_eq_nil {w t : T} {l : List T} (h : ∀ x ∈ l, x ≤ t - w) : recent w t l = [] := by
  simpa [recent] using h

theorem recent_sublist (w t : T) (l : List T) : (recent w t l).Sublist l := List.filter_sublist

theorem windowFrom_append (w a : T) (l l' : List T) :
    windowFrom w a (l ++ l') = windowFrom w a l ++ windowFrom w a l' :=
  List.filter_append ..

variable [IsOrderedAddMonoid T]

/-- Pruning at an earlier time does not change what is recent later. -/
theorem recent_recent {w t t' : T} (h : t ≤ t') (l : List T) :
    recent w t' (recent w t l) = recent w t' l := by
  simp only [recent, List.filter_filter]
  refine List.filter_congr fun x _ => ?_
  by_cases hx : t' - w < x
  · simp [hx, (sub_le_sub_right h w).trans_lt hx]
  · simp [hx]

/-- Lists that agree on a window agree on every later one. -/
theorem recent_eq_of_le {w t t' : T} (h : t ≤ t') {l l' : List T}
    (heq : recent w t l = recent w t l') : recent w t' l = recent w t' l' := by
  rw [← recent_recent h l, heq, recent_recent h l']

/-- **Admission.** Let every window of a list hold at most `m` entries, and let fewer than `m` of
a list that contains it be recent at the time `t`. Then every window still
holds at most `m` entries when a time from `t` on is appended. -/
theorem length_windowFrom_append_singleton_le {w t t' : T} {m : ℕ} {l l' : List T}
    (hsub : l.Sublist l') (htt : t ≤ t')
    (hrecent : (recent w t l').length < m) (h : ∀ a, (windowFrom w a l).length ≤ m) (a : T) :
    (windowFrom w a (l ++ [t'])).length ≤ m := by
  rw [windowFrom_append, List.length_append]
  by_cases hmem : a < t' ∧ t' ≤ a + w
  · -- the window holds the new entry, so the earlier ones in it are recent at `t`
    have hstart : t - w ≤ a := sub_le_iff_le_add.mpr (htt.trans hmem.2)
    have hsub' : (windowFrom w a l).Sublist (recent w t l') := by
      have himp : (windowFrom w a l).Sublist (recent w t l) := by
        refine List.monotone_filter_right l fun x hx => ?_
        simp only [decide_eq_true_eq] at hx ⊢
        exact hstart.trans_lt hx.1
      exact himp.trans (hsub.filter _)
    have hlen : (windowFrom w a [t']).length ≤ 1 := List.length_filter_le ..
    have := hsub'.length_le
    omega
  · have hnil : windowFrom w a [t'] = [] := by simpa [windowFrom] using hmem
    simpa [hnil] using h a

end Nodeglow.SlidingWindow
