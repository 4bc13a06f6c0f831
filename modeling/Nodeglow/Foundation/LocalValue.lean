import Mathlib.Data.List.Basic

/-!
# Values local to a transaction

A transaction carries a value that can be set and that lasts to its end. Savepoints may be taken at
any time, also several of one name: rolling back to a savepoint restores the value it was taken
with and keeps the savepoint, releasing it leaves the value alone, and both forget the savepoints
taken after it.

## Main definitions

* `LocalValue`, `LocalValue.set`, `LocalValue.savepoint`, `LocalValue.release`,
  `LocalValue.rollbackTo`.

## Main results

* `LocalValue.release_value` — releasing keeps the value.
-/

namespace Nodeglow

/-- A value local to a transaction, with the values at its savepoints, the last one first. -/
@[ext]
structure LocalValue (α : Type*) where
  value : α
  savepoints : List (String × α)
  deriving DecidableEq, Repr

namespace LocalValue

variable {α : Type*}

/-- The value of a transaction that has just begun. -/
def start (v : α) : LocalValue α := ⟨v, []⟩

variable (t : LocalValue α)

def set (v : α) : LocalValue α := { t with value := v }

def savepoint (name : String) : LocalValue α :=
  { t with savepoints := (name, t.value) :: t.savepoints }

/-- The savepoints up to the last one of the name. -/
def upTo (name : String) : List (String × α) := t.savepoints.dropWhile fun p => p.1 ≠ name

/-- Forget the savepoint and all later ones. -/
def release (name : String) : Option (LocalValue α) :=
  match t.upTo name with
  | [] => none
  | _ :: rest => some { t with savepoints := rest }

/-- Go back to the savepoint. -/
def rollbackTo (name : String) : Option (LocalValue α) :=
  match t.upTo name with
  | [] => none
  | p :: rest => some ⟨p.2, p :: rest⟩

variable {t}

theorem release_value {t' : LocalValue α} {name : String} (h : t.release name = some t') :
    t'.value = t.value := by
  unfold release at h
  split at h
  · cases h
  · obtain rfl := Option.some.inj h
    rfl

end LocalValue

end Nodeglow
