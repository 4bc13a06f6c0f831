import Mathlib.Data.List.Induction
import Mathlib.Order.MinMax

/-!
# Merging intervals

Closed intervals in the order of their starts are merged: an interval that starts within the last
one extends it. What comes out covers the same points, in order and without overlap.

## Main definitions

* `Covers` — the points of some intervals.
* `Separated` — intervals in order and without overlap.
* `mergeNext`, `merge` — one interval, and all.
* `Merged` — what has been merged so far.

## Main results

* `Merged.next` — one interval.
* `merged_merge` — all of them.
-/

namespace Nodeglow.Intervals

variable {α : Type*} [LinearOrder α]

/-- The points of some closed intervals. -/
def Covers (ranges : List (α × α)) (x : α) : Prop := ∃ r ∈ ranges, r.1 ≤ x ∧ x ≤ r.2

/-- **Intervals in the order of their starts**, without overlap. -/
structure Separated (ranges : List (α × α)) : Prop where
  le : ∀ r ∈ ranges, r.1 ≤ r.2
  sorted : ranges.Pairwise fun r r' => r.1 < r'.1
  disjoint : ranges.Pairwise fun r r' => r.2 < r'.1

/-- One more interval. -/
def mergeNext (ranges : List (α × α)) (w : α × α) : List (α × α) :=
  match ranges.getLast? with
  | some last =>
    if w.1 ≤ last.2 then ranges.dropLast ++ [(last.1, max last.2 w.2)] else ranges ++ [w]
  | none => [w]

/-- All intervals. -/
def merge (ws : List (α × α)) : List (α × α) := ws.foldl mergeNext []

variable {ranges ranges' ws : List (α × α)} {last w : α × α} {x : α}

/-! ### Points -/

theorem covers_append : Covers (ranges ++ ranges') x ↔ Covers ranges x ∨ Covers ranges' x := by
  simp only [Covers, List.mem_append, or_and_right, exists_or]

@[simp]
theorem covers_singleton : Covers [w] x ↔ w.1 ≤ x ∧ x ≤ w.2 := by
  simp only [Covers, List.mem_singleton, exists_eq_left]

/-- An interval that starts within another one extends it. -/
theorem covers_extend (hle : last.1 ≤ w.1) (hlt : w.1 ≤ last.2) :
    last.1 ≤ x ∧ x ≤ max last.2 w.2 ↔ (last.1 ≤ x ∧ x ≤ last.2) ∨ (w.1 ≤ x ∧ x ≤ w.2) := by
  rw [le_max_iff]
  constructor
  · rintro ⟨hstart, hend | hend⟩
    · exact .inl ⟨hstart, hend⟩
    · exact (le_total x last.2).imp (⟨hstart, ·⟩) fun h => ⟨hlt.trans h, hend⟩
  · rintro (⟨hstart, hend⟩ | ⟨hstart, hend⟩)
    · exact ⟨hstart, .inl hend⟩
    · exact ⟨hle.trans hstart, .inr hend⟩

/-! ### Separated intervals -/

theorem Separated.of_append (h : Separated (ranges ++ ranges')) : Separated ranges where
  le r hr := h.le r (List.mem_append_left _ hr)
  sorted := (List.pairwise_append.mp h.sorted).1
  disjoint := (List.pairwise_append.mp h.disjoint).1

/-- An interval after all others. -/
theorem Separated.concat (h : Separated ranges) (hle : w.1 ≤ w.2)
    (hafter : ∀ r ∈ ranges, r.2 < w.1) : Separated (ranges ++ [w]) where
  le r hr := (List.mem_append.mp hr).elim (h.le r) fun hr => List.mem_singleton.mp hr ▸ hle
  sorted := List.pairwise_append.mpr ⟨h.sorted, List.pairwise_singleton _ _, fun r hr _ hw =>
    List.mem_singleton.mp hw ▸ (h.le r hr).trans_lt (hafter r hr)⟩
  disjoint := List.pairwise_append.mpr ⟨h.disjoint, List.pairwise_singleton _ _, fun r hr _ hw =>
    List.mem_singleton.mp hw ▸ hafter r hr⟩

theorem Separated.lt_of_mem (h : Separated (ranges ++ [last])) : ∀ r ∈ ranges, r.2 < last.1 :=
  fun r hr => (List.pairwise_append.mp h.disjoint).2.2 r hr last List.mem_cons_self

/-! ### Merging -/

theorem mergeNext_append : mergeNext (ranges ++ [last]) w =
    if w.1 ≤ last.2 then ranges ++ [(last.1, max last.2 w.2)] else ranges ++ [last] ++ [w] := by
  simp only [mergeNext, List.getLast?_concat, List.dropLast_concat]

/-- **What has been merged so far.** The last interval starts where one of the given ones starts. -/
structure Merged (ranges ws : List (α × α)) : Prop where
  separated : Separated ranges
  covers : ∀ x, Covers ranges x ↔ Covers ws x
  last : ∀ r ∈ ranges.getLast?, ∃ w ∈ ws, r.1 = w.1

theorem merged_nil : Merged ([] : List (α × α)) [] where
  separated := ⟨nofun, .nil, .nil⟩
  covers _ := Iff.rfl
  last := nofun

/-- **One more interval**, which starts at or after all others. -/
theorem Merged.next (h : Merged ranges ws) (hle : w.1 ≤ w.2) (hstart : ∀ v ∈ ws, v.1 ≤ w.1) :
    Merged (mergeNext ranges w) (ws ++ [w]) := by
  have hmem : w ∈ ws ++ [w] := List.mem_append_right _ List.mem_cons_self
  rcases List.eq_nil_or_concat ranges with rfl | ⟨init, last, hconcat⟩
  · refine ⟨⟨?_, List.pairwise_singleton _ _, List.pairwise_singleton _ _⟩, fun x => ?_, ?_⟩
    · exact fun r hr => List.mem_singleton.mp hr ▸ hle
    · rw [covers_append, ← h.covers]
      exact (or_iff_right fun ⟨r, hr, _⟩ => nomatch hr).symm
    · exact fun r hr => ⟨w, hmem, congrArg Prod.fst (Option.some.inj hr).symm⟩
  · obtain rfl : ranges = init ++ [last] := hconcat.trans (List.concat_eq_append ..)
    obtain ⟨v, hv, hfirst⟩ := h.last last List.getLast?_concat
    have hlast : last.1 ≤ w.1 := hfirst ▸ hstart v hv
    have hsep := h.separated
    rw [mergeNext_append]
    split_ifs with hwithin
    · refine ⟨?_, fun x => ?_, ?_⟩
      · refine hsep.of_append.concat ?_ hsep.lt_of_mem
        exact (hsep.le last (List.mem_append_right _ List.mem_cons_self)).trans (le_max_left _ _)
      · rw [covers_append, covers_append, ← h.covers, covers_append, covers_singleton,
          covers_singleton, covers_singleton, covers_extend hlast hwithin, or_assoc]
      · rintro r hr
        rw [List.getLast?_concat] at hr
        obtain rfl := Option.some.inj hr
        exact ⟨v, List.mem_append_left _ hv, hfirst⟩
    · refine ⟨hsep.concat hle fun r hr => ?_, fun x => ?_, ?_⟩
      · rcases List.mem_append.mp hr with hr | hr
        · exact (hsep.lt_of_mem r hr).trans_le hlast
        · exact List.mem_singleton.mp hr ▸ not_le.mp hwithin
      · rw [covers_append, h.covers, covers_append]
      · rintro r hr
        rw [List.getLast?_concat] at hr
        exact ⟨w, hmem, congrArg Prod.fst (Option.some.inj hr).symm⟩

/-- **All intervals**, in the order of their starts. -/
theorem merged_merge (hle : ∀ w ∈ ws, w.1 ≤ w.2)
    (hsorted : ws.Pairwise fun w w' => w.1 ≤ w'.1) : Merged (merge ws) ws := by
  induction ws using List.reverseRecOn with
  | nil => exact merged_nil
  | append_singleton ws w ih =>
    obtain ⟨hws, -, hlast⟩ := List.pairwise_append.mp hsorted
    have hmerged := ih (fun v hv => hle v (List.mem_append_left _ hv)) hws
    rw [merge, List.foldl_append]
    exact hmerged.next (hle w (List.mem_append_right _ List.mem_cons_self))
      fun v hv => hlast v hv w List.mem_cons_self

end Nodeglow.Intervals
