import Mathlib.Data.List.Dedup
import Nodeglow.Foundation.ReadCommitted

/-!
# Tables under READ COMMITTED

A table by its primary key: every key has a row, and the rows of the keys that are not listed have
never been written. The statements of a transaction read and lock the rows one by one; a count reads
them all in one statement.

## Main definitions

* `Table`, `Table.lookup`, `Table.committed` — what a transaction sees, and what is committed.
* `Table.write`, `Table.updateWhere`, `Table.deleteWhere`, `Table.commit`, `Table.rollback`.
* `Table.count`.

## Main results

* `Table.committed_of_write`, `Table.lookup_of_write`, `Table.writer_of_write`.
* `Table.committed_commit` — what a commit makes of a row.
* `Table.local_of_write`, `Table.local_of_updateWhere`, `Table.local_rollback` — what others see.
* `Table.exists_ne_of_count` — what a transaction knows that has counted more than one row.
-/

namespace Nodeglow

variable {θ κ ν : Type*}

/-- The rows of a table by their keys. -/
@[ext]
structure Table (θ κ ν : Type*) where
  keys : List κ
  rows : κ → Row θ (Option ν)
  nodup : keys.Nodup
  absent : ∀ i, i ∉ keys → rows i = .stored none

namespace Table

variable {T T' : Table θ κ ν} {t : θ} {i j : κ}

/-- The table with the given rows, which nobody has locked. -/
def ofList [DecidableEq κ] (l : List (κ × ν)) : Table θ κ ν where
  keys := (l.map Prod.fst).dedup
  rows i := .stored (l.lookup i)
  nodup := List.nodup_dedup _
  absent i hi := by
    have hnone : l.lookup i = none := by
      refine List.lookup_eq_none_iff.mpr fun p hp => ?_
      have hne : i ≠ p.1 := by
        rintro rfl
        exact hi (List.mem_dedup.mpr (List.mem_map_of_mem hp))
      simpa using hne
    rw [hnone]

def committed (T : Table θ κ ν) (i : κ) : Option ν := (T.rows i).committed

def writer (T : Table θ κ ν) (i : κ) : Option θ := (T.rows i).writer

/-- Replace a row. -/
def put [DecidableEq κ] (T : Table θ κ ν) (i : κ) (row : Row θ (Option ν)) : Table θ κ ν where
  keys := if i ∈ T.keys then T.keys else i :: T.keys
  rows := Function.update T.rows i row
  nodup := by
    split
    · exact T.nodup
    · next hi => exact List.nodup_cons.mpr ⟨hi, T.nodup⟩
  absent j hj := by
    have hji : j ≠ i := by
      rintro rfl
      split at hj
      · contradiction
      · exact hj List.mem_cons_self
    rw [Function.update_of_ne hji]
    refine T.absent j fun hmem => hj ?_
    split
    · exact hmem
    · exact List.mem_cons_of_mem i hmem

/-- Change every row alike, without a new key. -/
def map (T : Table θ κ ν) (f : κ → Row θ (Option ν) → Row θ (Option ν))
    (hf : ∀ i, f i (.stored none) = .stored none) : Table θ κ ν where
  keys := T.keys
  rows i := f i (T.rows i)
  nodup := T.nodup
  absent i hi := by rw [T.absent i hi, hf]

theorem rows_put [DecidableEq κ] (i : κ) (row : Row θ (Option ν)) (j : κ) :
    (T.put i row).rows j = if j = i then row else T.rows j := by
  simp [put, Function.update_apply]

theorem mem_keys_of_committed_ne_none (h : T.committed i ≠ none) : i ∈ T.keys := by
  by_contra hi
  exact h (by rw [committed, T.absent i hi]; rfl)

section Statements

variable [DecidableEq θ]

/-- What a statement of a transaction finds under a key. -/
def lookup (T : Table θ κ ν) (t : θ) (i : κ) : Option ν := (T.rows i).read t

/-- An insert, an update or a delete of one row; it has no value as long as it waits. -/
def write [DecidableEq κ] (T : Table θ κ ν) (t : θ) (i : κ) (f : Option ν → Option ν) :
    Option (Table θ κ ν) :=
  ((T.rows i).write t f).map (T.put i)

/-- The update of all rows that meet the condition, to a new version or to none; it waits for the
locks of all. -/
def updateWhere (T : Table θ κ ν) (t : θ) (p : κ → ν → Bool) (f : ν → Option ν) :
    Option (Table θ κ ν) :=
  if ∀ i ∈ T.keys, (T.lookup t i).any (p i) → T.writer i = none ∨ T.writer i = some t then
    some (T.map
      (fun i r =>
        if (r.read t).any (p i) then { r with written := some (t, (r.read t).bind f) } else r)
      fun i => by simp [Row.stored, Row.read])
  else none

/-- The delete of all rows under the given keys. -/
def deleteWhere (T : Table θ κ ν) (t : θ) (p : κ → Bool) : Option (Table θ κ ν) :=
  T.updateWhere t (fun i _ => p i) fun _ => none

def commit (T : Table θ κ ν) (t : θ) : Table θ κ ν :=
  T.map (fun _ r => r.commit t) fun _ => by simp [Row.stored, Row.commit, Row.writer]

def rollback (T : Table θ κ ν) (t : θ) : Table θ κ ν :=
  T.map (fun _ r => r.rollback t) fun _ => by simp [Row.stored, Row.rollback, Row.writer]

/-- The number of rows that meet the condition, as one statement counts them. -/
def count (T : Table θ κ ν) (t : θ) (p : κ → ν → Bool) : ℕ :=
  (T.keys.filter fun i => (T.lookup t i).any (p i)).length

theorem lookup_of_writer_ne (h : T.writer i ≠ some t) : T.lookup t i = T.committed i :=
  Row.read_of_writer_ne h

/-- **A commit** makes of the rows that a transaction has locked what the transaction sees. -/
theorem committed_commit (T : Table θ κ ν) (t : θ) (i : κ) :
    (T.commit t).committed i = if T.writer i = some t then T.lookup t i else T.committed i := by
  change ((T.rows i).commit t).committed = _
  split_ifs with h
  · exact Row.committed_commit h
  · rw [Row.commit_of_writer_ne h]
    rfl

theorem writer_commit (T : Table θ κ ν) (t : θ) (i : κ) :
    (T.commit t).writer i = if T.writer i = some t then none else T.writer i := by
  change ((T.rows i).commit t).writer = _
  split_ifs with h
  · exact Row.writer_commit h
  · rw [Row.commit_of_writer_ne h]
    rfl

theorem committed_rollback (T : Table θ κ ν) (t : θ) (i : κ) :
    (T.rollback t).committed i = T.committed i :=
  Row.committed_rollback

theorem writer_rollback (T : Table θ κ ν) (t : θ) (i : κ) :
    (T.rollback t).writer i = if T.writer i = some t then none else T.writer i := by
  change ((T.rows i).rollback t).writer = _
  split_ifs with h
  · exact Row.writer_rollback h
  · rw [Row.rollback_of_writer_ne h]
    rfl

theorem lookup_commit (T : Table θ κ ν) (t t' : θ) (i : κ) :
    (T.commit t).lookup t' i = if T.writer i = some t then T.lookup t i else T.lookup t' i := by
  change ((T.rows i).commit t).read t' = _
  split_ifs with h
  · rw [Row.commit_of_writer h]
    rfl
  · rw [Row.commit_of_writer_ne h]
    rfl

theorem lookup_rollback (T : Table θ κ ν) (t t' : θ) (i : κ) :
    (T.rollback t).lookup t' i = if T.writer i = some t then T.committed i else T.lookup t' i := by
  change ((T.rows i).rollback t).read t' = _
  split_ifs with h
  · rw [Row.rollback_of_writer h]
    rfl
  · rw [Row.rollback_of_writer_ne h]
    rfl

theorem lookup_of_notMem (h : i ∉ T.keys) : T.lookup t i = none := by
  rw [lookup, T.absent i h]
  rfl

section UpdateWhere

variable {p : κ → ν → Bool} {f : ν → Option ν} (h : T.updateWhere t p f = some T')
include h

theorem row_of_updateWhere (i : κ) : T'.rows i =
    if (T.lookup t i).any (p i) then { T.rows i with written := some (t, (T.lookup t i).bind f) }
    else T.rows i := by
  obtain ⟨-, rfl⟩ := Option.ite_none_right_eq_some.mp h |>.imp_right Option.some.inj
  rfl

/-- An update commits nothing. -/
theorem committed_of_updateWhere (i : κ) : T'.committed i = T.committed i := by
  unfold committed
  rw [row_of_updateWhere h]
  split_ifs <;> rfl

theorem writer_of_updateWhere (i : κ) :
    T'.writer i = if (T.lookup t i).any (p i) then some t else T.writer i := by
  unfold writer
  rw [row_of_updateWhere h]
  split_ifs <;> rfl

theorem lookup_of_updateWhere (i : κ) : T'.lookup t i =
    if (T.lookup t i).any (p i) then (T.lookup t i).bind f else T.lookup t i := by
  have hrow : T'.lookup t i = Row.read _ t := congrArg (Row.read · t) (row_of_updateWhere h i)
  rw [hrow]
  split_ifs
  · simp [Row.read]
  · rfl

/-- Another transaction does not see an update before its commit. -/
theorem lookup_of_updateWhere_of_ne {t' : θ} (ht : t' ≠ t) (i : κ) :
    T'.lookup t' i = T.lookup t' i := by
  obtain ⟨hfree, -⟩ := Option.ite_none_right_eq_some.mp h
  have hrow : T'.lookup t' i = Row.read _ t' := congrArg (Row.read · t') (row_of_updateWhere h i)
  rw [hrow]
  split_ifs with hany
  · have hmem : i ∈ T.keys := by
      by_contra hi
      rw [lookup_of_notMem hi] at hany
      cases hany
    have hne : T.writer i ≠ some t' := by
      rcases hfree i hmem hany with hw | hw
      · simp [hw]
      · simpa [hw] using ht.symm
    rw [lookup_of_writer_ne hne]
    simp [Row.read, ht.symm, committed]
  · rfl

end UpdateWhere

/-- A delete that finds no row changes nothing. -/
theorem eq_of_deleteWhere {p : κ → Bool} (h : T.deleteWhere t p = some T')
    (hnone : ∀ i ∈ T.keys, p i → T.lookup t i = none) : T' = T := by
  have hrow := row_of_updateWhere h
  obtain ⟨-, rfl⟩ := Option.ite_none_right_eq_some.mp h |>.imp_right Option.some.inj
  refine Table.ext rfl (funext fun i => (hrow i).trans (if_neg ?_))
  intro hany
  have hlookup : T.lookup t i = none := by
    by_cases hi : i ∈ T.keys
    · obtain ⟨v, -, hp⟩ := (Option.any_eq_true _ _).mp hany
      exact hnone i hi hp
    · exact lookup_of_notMem hi
  rw [hlookup] at hany
  cases hany

end Statements

section Write

variable [DecidableEq θ] [DecidableEq κ] {f : Option ν → Option ν} (h : T.write t i f = some T')
include h

theorem row_of_write : ∃ row, (T.rows i).write t f = some row ∧
    ∀ j, T'.rows j = if j = i then row else T.rows j := by
  obtain ⟨row, hrow, rfl⟩ := Option.map_eq_some_iff.mp h
  exact ⟨row, hrow, rows_put i row⟩

/-- A write commits nothing. -/
theorem committed_of_write (j : κ) : T'.committed j = T.committed j := by
  obtain ⟨row, hrow, hrows⟩ := row_of_write h
  unfold committed
  rw [hrows]
  split_ifs with hji
  · rw [hji, (Row.write_eq_some hrow).2.1]
  · rfl

/-- A write locks its row. -/
theorem writer_of_write (j : κ) : T'.writer j = if j = i then some t else T.writer j := by
  obtain ⟨row, hrow, hrows⟩ := row_of_write h
  unfold writer
  rw [hrows]
  split_ifs with hji
  · exact (Row.write_eq_some hrow).2.2.1
  · rfl

/-- A write waits for another transaction that has locked the row. -/
theorem writer_of_write_eq_some : T.writer i = none ∨ T.writer i = some t := by
  obtain ⟨row, hrow, -⟩ := row_of_write h
  exact (Row.write_eq_some hrow).1

theorem lookup_of_write : T'.lookup t i = f (T.lookup t i) := by
  obtain ⟨row, hrow, hrows⟩ := row_of_write h
  unfold lookup
  rw [hrows, if_pos rfl]
  exact (Row.write_eq_some hrow).2.2.2

/-- Another transaction does not see a write before its commit. -/
theorem lookup_of_write_other {t' : θ} (ht : t' ≠ t) (j : κ) : T'.lookup t' j = T.lookup t' j := by
  obtain ⟨row, hrow, hrows⟩ := row_of_write h
  obtain ⟨hfree, hcommitted, hwriter, -⟩ := Row.write_eq_some hrow
  unfold lookup
  rw [hrows]
  split_ifs with hji
  · subst hji
    have hne : row.writer ≠ some t' := by simpa [hwriter] using ht.symm
    have hne' : (T.rows j).writer ≠ some t' := by
      rcases hfree with hw | hw
      · simp [hw]
      · simpa [hw] using ht.symm
    rw [Row.read_of_writer_ne hne, Row.read_of_writer_ne hne', hcommitted]
  · rfl

theorem lookup_of_write_of_ne (hji : j ≠ i) (t' : θ) : T'.lookup t' j = T.lookup t' j := by
  obtain ⟨row, -, hrows⟩ := row_of_write h
  unfold lookup
  rw [hrows, if_neg hji]

end Write

/-! ### What a transaction does before it commits -/

/-- The tables differ in what the transaction `t` has written, and in nothing that is committed or
that another transaction sees. -/
structure Local [DecidableEq θ] (t : θ) (T T' : Table θ κ ν) : Prop where
  committed : ∀ i, T'.committed i = T.committed i
  lookup : ∀ t', t' ≠ t → ∀ i, T'.lookup t' i = T.lookup t' i
  writer : ∀ t', t' ≠ t → ∀ i, T'.writer i = some t' ↔ T.writer i = some t'

theorem Local.refl [DecidableEq θ] (t : θ) (T : Table θ κ ν) : Local t T T :=
  ⟨fun _ => rfl, fun _ _ _ => rfl, fun _ _ _ => Iff.rfl⟩

theorem local_of_write [DecidableEq θ] [DecidableEq κ] {f : Option ν → Option ν}
    (h : T.write t i f = some T') : Local t T T' := by
  refine ⟨committed_of_write h, fun t' ht => lookup_of_write_other h ht, fun t' ht j => ?_⟩
  rw [writer_of_write h]
  split_ifs with hji
  · rcases writer_of_write_eq_some h with hw | hw <;> simp [hji, hw, ht.symm]
  · rfl

theorem local_of_updateWhere [DecidableEq θ] {p : κ → ν → Bool} {f : ν → Option ν}
    (h : T.updateWhere t p f = some T') : Local t T T' := by
  refine ⟨committed_of_updateWhere h, fun t' ht => lookup_of_updateWhere_of_ne h ht,
    fun t' ht j => ?_⟩
  obtain ⟨hfree, -⟩ := Option.ite_none_right_eq_some.mp h
  rw [writer_of_updateWhere h]
  split_ifs with hany
  · have hmem : j ∈ T.keys := by
      by_contra hj
      rw [lookup_of_notMem hj] at hany
      cases hany
    rcases hfree j hmem hany with hw | hw <;> simp [hw, ht.symm]
  · rfl

theorem local_rollback [DecidableEq θ] (t : θ) (T : Table θ κ ν) : Local t T (T.rollback t) := by
  refine ⟨committed_rollback T t, fun t' ht j => ?_, fun t' ht j => ?_⟩
  · rw [lookup_rollback]
    split_ifs with hw
    · exact (lookup_of_writer_ne (by simpa [hw] using ht.symm)).symm
    · rfl
  · rw [writer_rollback]
    split_ifs with hw
    · simp [hw, ht.symm]
    · rfl

/-- **More than one.** A transaction that has counted more than one row has seen another than any
given one. -/
theorem exists_ne_of_count [DecidableEq θ] {p : κ → ν → Bool} (h : 1 < T.count t p) (i : κ) :
    ∃ j, j ≠ i ∧ (T.lookup t j).any (p j) := by
  by_contra hnone
  push Not at hnone
  have hsub : (T.keys.filter fun j => (T.lookup t j).any (p j)) ⊆ [i] := by
    intro j hj
    obtain ⟨-, hp⟩ := List.mem_filter.mp hj
    have hji : j = i := by
      by_contra hji
      exact hnone j hji hp
    simp [hji]
  have hle := List.Nodup.length_le_of_subset (T.nodup.filter _) hsub
  exact absurd h (Nat.not_lt.mpr hle)

end Table

end Nodeglow
