import Mathlib.Algebra.Order.BigOperators.Group.List
import Mathlib.Algebra.Order.Group.Multiset

/-!
# Parts of a merge tree

A table of a merge tree keeps the rows of a partition in parts. An insert writes a part of its own
and numbers it with a new block; a merge replaces adjacent parts by one that holds their rows and
spans their blocks. The name of a part is made of its first and last block and of the number of
merges behind it.

The rows of the blocks up to a given one are the measure of what has been inserted by then: a merge
leaves them as they are (`rowsUpTo_mergeAt`), and so does an insert of a later block
(`rowsUpTo_insert`).

## Main definitions

* `DataPart`, `DataPart.merge`, `mergeAt` — parts and merges.
* `rowsUpTo`, `allRows`, `rowsNamed` — the rows of the blocks up to a given one, all rows, and the
  rows of the parts with the given names.

## Main results

* `rowsUpTo_mergeAt`, `rowsUpTo_insert` — what a table goes through leaves these rows.
* `rowsNamed_le`, `rowsUpTo_add_rowsNamed_le` — the rows of some parts are among those of the blocks
  up to their last one.
-/

namespace Nodeglow.MergeTree

variable {ρ : Type}

/-- A part holds the rows of its blocks. -/
structure DataPart (ρ : Type) where
  minBlock : ℤ
  maxBlock : ℤ
  level : ℕ
  blocks : List (ℤ × Multiset ρ)
  ordered : minBlock ≤ maxBlock
  bounds : ∀ x ∈ blocks, minBlock ≤ x.1 ∧ x.1 ≤ maxBlock

/-- What the name of a part is made of. -/
structure PartName where
  minBlock : ℤ
  maxBlock : ℤ
  level : ℕ
  deriving DecidableEq, Repr

namespace DataPart

variable (q : DataPart ρ)

def name : PartName := ⟨q.minBlock, q.maxBlock, q.level⟩

/-- The rows of a part. -/
def rows : Multiset ρ := (q.blocks.map Prod.snd).sum

/-- The rows of the blocks of a part up to `b`. -/
def rowsUpTo (b : ℤ) : Multiset ρ := ((q.blocks.filter fun x => x.1 ≤ b).map Prod.snd).sum

/-- The part that an insert writes. -/
def ofInsert (b : ℤ) (rows : Multiset ρ) : DataPart ρ where
  minBlock := b
  maxBlock := b
  level := 0
  blocks := [(b, rows)]
  ordered := le_rfl
  bounds x hx := by
    obtain rfl := List.mem_singleton.mp hx
    exact ⟨le_rfl, le_rfl⟩

/-- The part that replaces `q` and the parts after it. -/
def merge (qs : List (DataPart ρ)) : DataPart ρ where
  minBlock := qs.foldr (fun p m => min p.minBlock m) q.minBlock
  maxBlock := qs.foldr (fun p m => max p.maxBlock m) q.maxBlock
  level := qs.foldr (fun p m => max p.level m) q.level + 1
  blocks := q.blocks ++ qs.flatMap blocks
  ordered := by
    induction qs with
    | nil => exact q.ordered
    | cons p qs ih => exact min_le_of_right_le (le_max_of_le_right ih)
  bounds := by
    intro x hx
    induction qs with
    | nil => exact q.bounds x (by simpa using hx)
    | cons p qs ih =>
      rw [List.flatMap_cons, List.mem_append, List.mem_append] at hx
      rw [List.foldr_cons, List.foldr_cons]
      rcases hx with hx | hx | hx
      · exact (ih (List.mem_append_left _ hx)).imp (min_le_of_right_le ·) (le_max_of_le_right ·)
      · exact (p.bounds x hx).imp (min_le_of_left_le ·) (le_max_of_le_left ·)
      · exact (ih (List.mem_append_right _ hx)).imp (min_le_of_right_le ·) (le_max_of_le_right ·)

/-- The blocks of a part up to some block are all of its blocks, or none. -/
theorem rowsUpTo_of_maxBlock_le {b : ℤ} (h : q.maxBlock ≤ b) : q.rowsUpTo b = q.rows := by
  unfold rowsUpTo rows
  rw [List.filter_eq_self.mpr fun x hx => by simpa using (q.bounds x hx).2.trans h]

theorem rowsUpTo_of_lt_minBlock {b : ℤ} (h : b < q.minBlock) : q.rowsUpTo b = 0 := by
  unfold rowsUpTo
  rw [List.filter_eq_nil_iff.mpr fun x hx => by simpa using h.trans_le (q.bounds x hx).1]
  rfl

theorem rowsUpTo_mono {b b' : ℤ} (h : b ≤ b') : q.rowsUpTo b ≤ q.rowsUpTo b' := by
  refine List.Sublist.sum_le_sum ((List.monotone_filter_right q.blocks ?_).map Prod.snd)
    fun _ _ => Multiset.zero_le _
  intro x hx
  simp only [decide_eq_true_eq] at hx ⊢
  exact hx.trans h

theorem rowsUpTo_le_rows (b : ℤ) : q.rowsUpTo b ≤ q.rows :=
  (List.filter_sublist.map Prod.snd).sum_le_sum fun _ _ => Multiset.zero_le _

end DataPart

section Rows

/-- The rows of the blocks up to `b`. -/
def rowsUpTo (parts : List (DataPart ρ)) (b : ℤ) : Multiset ρ :=
  (parts.map fun q => q.rowsUpTo b).sum

/-- The rows of all parts. -/
def allRows (parts : List (DataPart ρ)) : Multiset ρ := (parts.map DataPart.rows).sum

/-- The rows of the parts with the given names. -/
def rowsNamed (parts : List (DataPart ρ)) (names : List PartName) : Multiset ρ :=
  allRows (parts.filter fun q => q.name ∈ names)

/-- A merge of the parts from place `i` on, with the `n` parts after the first. -/
def mergeAt (parts : List (DataPart ρ)) (i n : ℕ) : List (DataPart ρ) :=
  match parts.drop i with
  | [] => parts
  | q :: rest => parts.take i ++ q.merge (rest.take n) :: rest.drop n

variable {parts parts' : List (DataPart ρ)} {b b' : ℤ} {names : List PartName}

theorem rowsUpTo_append (parts parts' : List (DataPart ρ)) (b : ℤ) :
    rowsUpTo (parts ++ parts') b = rowsUpTo parts b + rowsUpTo parts' b := by
  simp [rowsUpTo]

theorem rowsUpTo_cons (q : DataPart ρ) (parts : List (DataPart ρ)) (b : ℤ) :
    rowsUpTo (q :: parts) b = q.rowsUpTo b + rowsUpTo parts b := by
  simp [rowsUpTo]

theorem rowsUpTo_merge (q : DataPart ρ) (qs : List (DataPart ρ)) (b : ℤ) :
    (q.merge qs).rowsUpTo b = rowsUpTo (q :: qs) b := by
  have hrest : (((qs.flatMap DataPart.blocks).filter fun x => x.1 ≤ b).map Prod.snd).sum =
      rowsUpTo qs b := by
    induction qs with
    | nil => rfl
    | cons p qs ih =>
      rw [List.flatMap_cons, List.filter_append, List.map_append, List.sum_append, ih,
        rowsUpTo_cons]
      rfl
  change ((List.filter _ (q.blocks ++ qs.flatMap DataPart.blocks)).map Prod.snd).sum = _
  rw [List.filter_append, List.map_append, List.sum_append, hrest, rowsUpTo_cons]
  rfl

/-- **A merge** leaves the rows of the blocks up to any block. -/
theorem rowsUpTo_mergeAt (parts : List (DataPart ρ)) (i n : ℕ) (b : ℤ) :
    rowsUpTo (mergeAt parts i n) b = rowsUpTo parts b := by
  unfold mergeAt
  split
  · rfl
  · next q rest hdrop =>
    have hparts : parts = parts.take i ++ q :: (rest.take n ++ rest.drop n) := by
      rw [List.take_append_drop, ← hdrop, List.take_append_drop]
    have hmerge : rowsUpTo (q.merge (rest.take n) :: rest.drop n) b =
        rowsUpTo (q :: (rest.take n ++ rest.drop n)) b := by
      rw [rowsUpTo_cons, rowsUpTo_merge, ← rowsUpTo_append, List.cons_append]
    rw [rowsUpTo_append, hmerge, ← rowsUpTo_append, ← hparts]

/-- **An insert** of a later block leaves the rows of the blocks up to an earlier one. -/
theorem rowsUpTo_insert (h : b < b') (rows : Multiset ρ) :
    rowsUpTo (parts ++ [DataPart.ofInsert b' rows]) b = rowsUpTo parts b := by
  have hnone := (DataPart.ofInsert b' rows).rowsUpTo_of_lt_minBlock h
  rw [rowsUpTo_append]
  simp [rowsUpTo, hnone]

/-- The blocks of the parts of a merge are within the bounds of those before it. -/
theorem bounds_mergeAt {first bound : ℤ} (h : ∀ q ∈ parts, first ≤ q.minBlock ∧ q.maxBlock < bound)
    (i n : ℕ) : ∀ q ∈ mergeAt parts i n, first ≤ q.minBlock ∧ q.maxBlock < bound := by
  unfold mergeAt
  split
  · exact h
  · next q rest hdrop =>
    have hmem {p : DataPart ρ} (hp : p ∈ q :: rest) : p ∈ parts := List.mem_of_mem_drop (hdrop ▸ hp)
    have hmerge (qs : List (DataPart ρ)) (hqs : ∀ p ∈ qs, first ≤ p.minBlock ∧ p.maxBlock < bound) :
        first ≤ (q.merge qs).minBlock ∧ (q.merge qs).maxBlock < bound := by
      induction qs with
      | nil => exact h q (hmem List.mem_cons_self)
      | cons p qs ih =>
        obtain ⟨hp, hqs⟩ := List.forall_mem_cons.mp hqs
        exact ⟨le_min hp.1 (ih hqs).1, max_lt hp.2 (ih hqs).2⟩
    intro p hp
    rcases List.mem_append.mp hp with hp | hp
    · exact h p (List.mem_of_mem_take hp)
    · rcases List.mem_cons.mp hp with rfl | hp
      · exact hmerge _ fun p hp =>
          h p (hmem (List.mem_cons_of_mem _ (List.mem_of_mem_take hp)))
      · exact h p (hmem (List.mem_cons_of_mem _ (List.mem_of_mem_drop hp)))

theorem rowsUpTo_le_allRows (parts : List (DataPart ρ)) (b : ℤ) :
    rowsUpTo parts b ≤ allRows parts :=
  List.sum_le_sum fun q _ => q.rowsUpTo_le_rows b

/-- Where no part begins within the blocks up to `b` and ends after them, they are whole parts. -/
theorem rowsUpTo_eq_allRows_filter (h : ∀ q ∈ parts, q.maxBlock ≤ b ∨ b < q.minBlock) :
    rowsUpTo parts b = allRows (parts.filter fun q => q.maxBlock ≤ b) := by
  induction parts with
  | nil => rfl
  | cons q parts ih =>
    obtain ⟨hq, hrest⟩ := List.forall_mem_cons.mp h
    have ih := ih hrest
    by_cases hle : q.maxBlock ≤ b
    · rw [List.filter_cons_of_pos (by simpa using hle)]
      simp only [rowsUpTo, allRows, List.map_cons, List.sum_cons] at ih ⊢
      rw [ih, q.rowsUpTo_of_maxBlock_le hle]
    · rw [List.filter_cons_of_neg (by simpa using hle), ← ih]
      simp only [rowsUpTo, List.map_cons, List.sum_cons]
      rw [q.rowsUpTo_of_lt_minBlock (hq.resolve_left hle), zero_add]

/-- The blocks up to the last one are all blocks. -/
theorem rowsUpTo_eq_allRows (h : ∀ q ∈ parts, q.maxBlock ≤ b) :
    rowsUpTo parts b = allRows parts :=
  congrArg List.sum (List.map_congr_left fun q hq => q.rowsUpTo_of_maxBlock_le (h q hq))

theorem rowsUpTo_of_forall_lt (h : ∀ q ∈ parts, b < q.minBlock) : rowsUpTo parts b = 0 := by
  induction parts with
  | nil => rfl
  | cons q parts ih =>
    obtain ⟨hq, hrest⟩ := List.forall_mem_cons.mp h
    rw [rowsUpTo_cons, q.rowsUpTo_of_lt_minBlock hq, ih hrest, add_zero]

theorem rowsNamed_cons (q : DataPart ρ) (parts : List (DataPart ρ)) (names : List PartName) :
    rowsNamed (q :: parts) names =
      (if q.name ∈ names then q.rows else 0) + rowsNamed parts names := by
  unfold rowsNamed
  split_ifs with hq
  · rw [List.filter_cons_of_pos (by simpa using hq)]
    simp [allRows]
  · rw [List.filter_cons_of_neg (by simpa using hq), zero_add]

/-- The rows of some parts are among those of the blocks up to their last one. -/
theorem rowsNamed_le (h : ∀ x ∈ names, x.maxBlock ≤ b) :
    rowsNamed parts names ≤ rowsUpTo parts b := by
  induction parts with
  | nil => exact le_rfl
  | cons q parts ih =>
    rw [rowsNamed_cons, rowsUpTo_cons]
    refine add_le_add ?_ ih
    split_ifs with hq
    · rw [q.rowsUpTo_of_maxBlock_le (h _ hq)]
    · exact Multiset.zero_le _

/-- The rows of some parts after the block `b` come to those of the blocks up to `b`. -/
theorem rowsUpTo_add_rowsNamed_le (hb : b ≤ b')
    (h : ∀ x ∈ names, b < x.minBlock ∧ x.maxBlock ≤ b') :
    rowsUpTo parts b + rowsNamed parts names ≤ rowsUpTo parts b' := by
  induction parts with
  | nil => exact le_rfl
  | cons q parts ih =>
    rw [rowsNamed_cons, rowsUpTo_cons, rowsUpTo_cons, add_add_add_comm]
    refine add_le_add ?_ ih
    split_ifs with hq
    · rw [q.rowsUpTo_of_lt_minBlock (h _ hq).1, zero_add, q.rowsUpTo_of_maxBlock_le (h _ hq).2]
    · rw [add_zero]
      exact q.rowsUpTo_mono hb

theorem rowsNamed_append (parts parts' : List (DataPart ρ)) (names : List PartName) :
    rowsNamed (parts ++ parts') names = rowsNamed parts names + rowsNamed parts' names := by
  simp [rowsNamed, allRows]

/-- The rows up to a block, and those of the parts after it, are all rows. -/
theorem rowsUpTo_add_allRows_filter (h : ∀ q ∈ parts, q.maxBlock ≤ b ∨ b < q.minBlock) :
    rowsUpTo parts b + allRows (parts.filter fun q => b < q.minBlock) = allRows parts := by
  induction parts with
  | nil => rfl
  | cons q parts ih =>
    obtain ⟨hq, hrest⟩ := List.forall_mem_cons.mp h
    have ih := ih hrest
    simp only [allRows] at ih
    by_cases hlt : b < q.minBlock
    · rw [List.filter_cons_of_pos (by simpa using hlt), rowsUpTo_cons,
        q.rowsUpTo_of_lt_minBlock hlt]
      simp only [allRows, List.map_cons, List.sum_cons, zero_add]
      rw [← ih, add_left_comm]
    · rw [List.filter_cons_of_neg (by simpa using hlt), rowsUpTo_cons,
        q.rowsUpTo_of_maxBlock_le (hq.resolve_right hlt)]
      simp only [allRows, List.map_cons, List.sum_cons]
      rw [← ih, add_assoc]

theorem rowsNamed_eq_zero (h : ∀ q ∈ parts, q.name ∉ names) : rowsNamed parts names = 0 := by
  unfold rowsNamed
  rw [List.filter_eq_nil_iff.mpr fun q hq => by simpa using h q hq]
  rfl

end Rows

end Nodeglow.MergeTree
