import Mathlib.Data.List.Sort

/-!
# Sorting sources that are cut off

Several lists are put one behind the other and sorted by a stable sort, of which only the first `n`
items are wanted. Of a list that is sorted already, what stands behind its first `n` items may be
left out.

## Main definitions

* `TruncatedMerge.Agrees` — a list may stand in the place of another one.

## Main results

* `TruncatedMerge.take_merge_take` — the start of a merge comes from the starts of the lists.
* `TruncatedMerge.insertionSort_append` — a sorted list is merged with what is sorted behind it.
* `TruncatedMerge.agrees_take` — a sorted list may be cut off.
* `TruncatedMerge.Agrees.append`, `TruncatedMerge.Agrees.flatMap` — so may each of several lists.
-/

namespace Nodeglow.TruncatedMerge

variable {α β : Type*} {r : α → α → Prop} [DecidableRel r] {n m : ℕ}

/-- The start of a merge comes from the starts of the lists. -/
theorem take_merge_take (le : α → α → Bool) (hmn : n ≤ m) (l l' : List α) :
    ((l.take m).merge l' le).take n = (l.merge l' le).take n := by
  induction n generalizing l l' m with
  | zero => simp
  | succ n ih =>
    obtain ⟨m, rfl⟩ := Nat.exists_eq_add_of_le' (Nat.one_le_of_lt hmn)
    have hle : n ≤ m := Nat.le_of_succ_le_succ hmn
    cases l with
    | nil => simp
    | cons a l =>
      cases l' with
      | nil => simp [List.take_take, hle]
      | cons b l' =>
        rw [List.take_succ_cons, List.cons_merge_cons, List.cons_merge_cons]
        by_cases hab : le a b = true
        · rw [if_pos hab, if_pos hab, List.take_succ_cons, List.take_succ_cons, ih hle]
        · rw [if_neg hab, if_neg hab, List.take_succ_cons, List.take_succ_cons]
          have hrest := ih (m := m + 1) (Nat.le_succ_of_le hle) (a :: l) l'
          rw [List.take_succ_cons] at hrest
          rw [hrest]

/-- What is inserted in front of a merge is the first item of the list in front. -/
theorem orderedInsert_merge [IsTrans α r] {a : α} {l : List α} (ha : ∀ b ∈ l, r a b) (l' : List α) :
    (l.merge l' (r · ·)).orderedInsert r a = (a :: l).merge l' (r · ·) := by
  induction l' with
  | nil =>
    cases l with
    | nil => simp
    | cons b l => simp [ha b List.mem_cons_self]
  | cons c l' ih =>
    rw [List.cons_merge_cons]
    by_cases hac : r a c
    · rw [if_pos (decide_eq_true hac)]
      cases l with
      | nil => simp [hac]
      | cons b l =>
        have hab : r a b := ha b List.mem_cons_self
        rw [List.cons_merge_cons]
        split_ifs
        · rw [List.orderedInsert_cons_of_le _ _ hab]
        · rw [List.orderedInsert_cons_of_le _ _ hac]
    · rw [if_neg (by simpa using hac), ← ih]
      have hfirst : (l.merge (c :: l') (r · ·)) = c :: l.merge l' (r · ·) := by
        cases l with
        | nil => simp
        | cons b l =>
          have hbc : ¬r b c := fun hbc => hac (IsTrans.trans _ _ _ (ha b List.mem_cons_self) hbc)
          rw [List.cons_merge_cons, if_neg (by simpa using hbc)]
      rw [hfirst, List.orderedInsert_of_not_le _ _ hac]

/-- **A sorted list is merged** with what is sorted behind it. -/
theorem insertionSort_append [IsTrans α r] {l : List α} (hl : l.Pairwise r) (l' : List α) :
    (l ++ l').insertionSort r = l.merge (l'.insertionSort r) (r · ·) := by
  induction l with
  | nil => simp
  | cons a l ih =>
    obtain ⟨ha, hl⟩ := List.pairwise_cons.mp hl
    rw [List.cons_append, List.insertionSort_cons, ih hl, orderedInsert_merge ha]

theorem take_orderedInsert_take (a : α) (l : List α) :
    ((l.take n).orderedInsert r a).take n = (l.orderedInsert r a).take n := by
  induction n generalizing l with
  | zero => rfl
  | succ n ih =>
    cases l with
    | nil => rfl
    | cons b l =>
      rw [List.take_succ_cons]
      by_cases hab : r a b
      · have htake : (b :: l.take n).take n = (b :: l).take n := by
          rw [← List.take_succ_cons, List.take_take, min_eq_left (Nat.le_succ n)]
        rw [List.orderedInsert_cons_of_le _ _ hab, List.orderedInsert_cons_of_le _ _ hab,
          List.take_succ_cons, List.take_succ_cons, htake]
      · rw [List.orderedInsert_of_not_le _ _ hab, List.orderedInsert_of_not_le _ _ hab,
          List.take_succ_cons, List.take_succ_cons, ih]

/-- What is sorted in front of two lists leaves their starts alike. -/
theorem take_insertionSort_append {l l' : List α} (h : (l.insertionSort r).take n =
    (l'.insertionSort r).take n) (front : List α) :
    ((front ++ l).insertionSort r).take n = ((front ++ l').insertionSort r).take n := by
  induction front with
  | nil => exact h
  | cons a front ih =>
    rw [List.cons_append, List.cons_append, List.insertionSort_cons, List.insertionSort_cons,
      ← take_orderedInsert_take, ih, take_orderedInsert_take]

/-- **A list may stand in the place of another one**, whatever is sorted behind it, as far as the
first `n` items go. -/
def Agrees (r : α → α → Prop) [DecidableRel r] (n : ℕ) (l l' : List α) : Prop :=
  ∀ back, ((l ++ back).insertionSort r).take n = ((l' ++ back).insertionSort r).take n

theorem Agrees.refl (l : List α) : Agrees r n l l := fun _ => rfl

/-- **A sorted list may be cut off** behind its first `n` items. -/
theorem agrees_take [IsTrans α r] (hmn : n ≤ m) {l : List α} (hl : l.Pairwise r) :
    Agrees r n (l.take m) l := fun back => by
  rw [insertionSort_append (hl.sublist (List.take_sublist m l)), insertionSort_append hl,
    take_merge_take _ hmn]

theorem Agrees.append {l l' k k' : List α} (hl : Agrees r n l l') (hk : Agrees r n k k') :
    Agrees r n (l ++ k) (l' ++ k') := fun back => by
  rw [List.append_assoc, List.append_assoc, hl, take_insertionSort_append (hk back)]

theorem Agrees.flatMap {f g : β → List α} (xs : List β) (h : ∀ x ∈ xs, Agrees r n (f x) (g x)) :
    Agrees r n (xs.flatMap f) (xs.flatMap g) := by
  induction xs with
  | nil => exact .refl []
  | cons x xs ih =>
    obtain ⟨hx, hxs⟩ := List.forall_mem_cons.mp h
    exact hx.append (ih hxs)

/-- The first items of lists that may stand for each other. -/
theorem Agrees.take_insertionSort {l l' : List α} (h : Agrees r n l l') :
    (l.insertionSort r).take n = (l'.insertionSort r).take n := by
  simpa using h []

end Nodeglow.TruncatedMerge
