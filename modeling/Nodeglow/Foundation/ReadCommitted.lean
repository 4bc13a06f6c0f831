import Mathlib.Logic.Function.Basic

/-!
# Rows under READ COMMITTED

A row of a table as the transactions of a database at the isolation level READ COMMITTED see it. A
statement reads the last committed version, or the one its own transaction has written. A write
locks the row until its transaction ends: it applies to the version that is the newest when the lock
is granted, which need not be the one the transaction read before. Nothing else is locked, and a
read waits for nobody.

A transaction that computes what it writes from what it has read relies on the row being the same
then. `Row.read_of_writer_ne` and `Row.commit_of_writer_ne` say what the lock gives: while a
transaction holds it, no other changes the committed version.

## Main definitions

* `Row`, `Row.read`, `Row.writer` — versions of a row, and who holds the lock.
* `Row.write`, `Row.commit`, `Row.rollback`.

## Main results

* `Row.write_eq_some` — what a write does.
* `Row.committed_commit`, `Row.commit_of_writer_ne`, `Row.writer_commit`.
* `Row.Ended.writer` — the end of a transaction leaves the locks of the others.
-/

namespace Nodeglow

variable {θ ν : Type*}

/-- The last committed version of a row, and the version that a transaction has written. -/
structure Row (θ ν : Type*) where
  committed : ν
  written : Option (θ × ν)
  deriving DecidableEq, Repr

namespace Row

/-- A row that nobody has locked. -/
def stored (v : ν) : Row θ ν := ⟨v, none⟩

/-- The transaction that holds the lock. -/
def writer (r : Row θ ν) : Option θ := r.written.map Prod.fst

variable [DecidableEq θ] {r r' : Row θ ν} {t : θ} {f : ν → ν}

/-- The version that a statement of a transaction sees. -/
def read (r : Row θ ν) (t : θ) : ν :=
  match r.written with
  | some (t', v) => if t' = t then v else r.committed
  | none => r.committed

/-- A write; it has no value as long as it waits for the lock. -/
def write (r : Row θ ν) (t : θ) (f : ν → ν) : Option (Row θ ν) :=
  if r.writer = none ∨ r.writer = some t then some { r with written := some (t, f (r.read t)) }
  else none

/-- The end of a transaction, with what it has written. -/
def commit (r : Row θ ν) (t : θ) : Row θ ν :=
  if r.writer = some t then ⟨r.read t, none⟩ else r

/-- The end of a transaction, without. -/
def rollback (r : Row θ ν) (t : θ) : Row θ ν :=
  if r.writer = some t then ⟨r.committed, none⟩ else r

theorem read_of_writer_ne (h : r.writer ≠ some t) : r.read t = r.committed := by
  unfold read
  split
  · next t' v hwritten =>
    have hne : t' ≠ t := fun heq => h (by simp [writer, hwritten, heq])
    simp [hne]
  · rfl

/-- **A write** waits until no other transaction holds the lock, and applies to the newest
version. -/
theorem write_eq_some (h : r.write t f = some r') :
    (r.writer = none ∨ r.writer = some t) ∧ r'.committed = r.committed ∧
      r'.writer = some t ∧ r'.read t = f (r.read t) := by
  obtain ⟨hfree, rfl⟩ := Option.ite_none_right_eq_some.mp h |>.imp_right Option.some.inj
  exact ⟨hfree, rfl, rfl, by simp [read]⟩

/-- The first write of a transaction applies to the committed version. -/
theorem read_of_write (hfirst : r.writer ≠ some t) (h : r.write t f = some r') :
    r'.read t = f r.committed := by
  rw [(write_eq_some h).2.2.2, read_of_writer_ne hfirst]

theorem commit_of_writer (h : r.writer = some t) : r.commit t = stored (r.read t) := if_pos h

theorem committed_commit (h : r.writer = some t) : (r.commit t).committed = r.read t := by
  rw [commit_of_writer h]
  rfl

theorem writer_commit (h : r.writer = some t) : (r.commit t).writer = none := by
  rw [commit_of_writer h]
  rfl

theorem commit_of_writer_ne (h : r.writer ≠ some t) : r.commit t = r := if_neg h

@[simp]
theorem committed_rollback : (r.rollback t).committed = r.committed := by
  unfold rollback
  split <;> rfl

theorem rollback_of_writer_ne (h : r.writer ≠ some t) : r.rollback t = r := if_neg h

theorem rollback_of_writer (h : r.writer = some t) : r.rollback t = stored r.committed := if_pos h

theorem writer_rollback (h : r.writer = some t) : (r.rollback t).writer = none := by
  rw [rollback_of_writer h]
  rfl

/-- The row after the end of a transaction, with or without what it has written. -/
inductive Ended (t : θ) (r : Row θ ν) : Row θ ν → Prop
  | kept (h : r.writer ≠ some t) : Ended t r r
  | closed (v : ν) : Ended t r (stored v)

theorem ended_commit : r.Ended t (r.commit t) := by
  by_cases h : r.writer = some t
  · rw [commit_of_writer h]
    exact .closed _
  · rw [commit_of_writer_ne h]
    exact .kept h

theorem ended_rollback : r.Ended t (r.rollback t) := by
  by_cases h : r.writer = some t
  · rw [rollback_of_writer h]
    exact .closed _
  · rw [rollback_of_writer_ne h]
    exact .kept h

omit [DecidableEq θ] in
/-- The locks of the other transactions stay. -/
theorem Ended.writer {t' : θ} (h : r.Ended t r') (hwriter : r'.writer = some t') :
    t' ≠ t ∧ r.writer = some t' := by
  cases h with
  | kept h => exact ⟨fun heq => h (heq ▸ hwriter), hwriter⟩
  | closed v => cases hwriter

end Row

end Nodeglow
