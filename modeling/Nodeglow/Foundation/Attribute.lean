import Mathlib.Data.Option.Basic
import Mathlib.Tactic.SplitIfs

/-!
# Attributes with a history

An object-relational mapper keeps, for every mapped attribute of an object, the value in memory and
what the attribute held before its first assignment since the object was last loaded or flushed.
Either can be missing: an attribute that was never set or has expired has no value, and one that is
assigned in that condition has no known past. From the two the mapper tells whether the attribute
has changed, which decides what a flush writes.

`Attr.Tracks a v` says that what the attribute knows of its stored value is `v`. It holds when the
value has been loaded, and assignments, expiry, loading and flushing keep it (`Attr.Tracks.set`,
`Attr.Tracks.load`, `Attr.Tracks.commit`). An attribute that tracks its stored value and shows no
change has that value in memory, or none (`Attr.Tracks.get_eq`).

## Main definitions

* `Attr`, `Attr.set`, `Attr.load`, `Attr.commit`, `Attr.hasChanges`, `Attr.stored`.
* `Attr.Tracks`.
-/

namespace Nodeglow

/-- A mapped attribute of an object. -/
@[ext]
structure Attr (α : Type*) where
  /-- The value in memory. -/
  value : Option α
  /-- What the attribute held at its first assignment since it was last loaded or flushed. -/
  committed : Option (Option α)
  deriving DecidableEq, Repr

namespace Attr

variable {α : Type*}

/-- An attribute that is not set, or has expired. -/
def unset : Attr α := ⟨none, none⟩

/-- An attribute whose value has just been loaded. -/
def loaded (v : α) : Attr α := ⟨some v, none⟩

variable (a : Attr α) (v : α)

/-- Assign a value. -/
def set : Attr α := ⟨some v, some (a.committed.getD a.value)⟩

/-- Read the attribute; `v` is the stored value. -/
def get : α := a.value.getD v

/-- Reading an attribute without a value loads the stored one. -/
def load : Attr α := if a.value.isSome then a else loaded v

/-- The value in memory is the stored one now. -/
def commit : Attr α := ⟨a.value, none⟩

theorem get_load (a : Attr α) (v w : α) : (a.load v).get w = a.get v := by
  cases hv : a.value with
  | none => simp [load, get, hv, loaded]
  | some u => simp [load, get, hv]

/-- What the attribute knows of its stored value is `v`. -/
structure Tracks : Prop where
  of_value : a.committed = none → ∀ w, a.value = some w → w = v
  of_committed : ∀ w, a.committed = some (some w) → w = v

variable {a v}

theorem tracks_unset (v : α) : (unset : Attr α).Tracks v :=
  ⟨fun _ _ h => by simp [unset] at h, fun _ h => by simp [unset] at h⟩

theorem tracks_loaded (v : α) : (loaded v).Tracks v :=
  ⟨fun _ _ h => (Option.some.inj h).symm, fun _ h => by simp [loaded] at h⟩

theorem Tracks.set (h : a.Tracks v) (w : α) : (a.set w).Tracks v := by
  refine ⟨fun hnone => by simp [Attr.set] at hnone, fun u hu => ?_⟩
  have hu : a.committed.getD a.value = some u := by simpa [Attr.set] using hu
  cases hc : a.committed with
  | none => exact h.of_value hc u (by simpa [hc] using hu)
  | some o => exact h.of_committed u (by rw [hc, ← hu, hc]; rfl)

theorem Tracks.load (h : a.Tracks v) : (a.load v).Tracks v := by
  unfold Attr.load
  split_ifs
  · exact h
  · exact tracks_loaded v

variable [DecidableEq α]

variable (a v) in
/-- The history of the attribute shows a change. A past that is not known counts as different. -/
def hasChanges : Bool := a.committed.any fun o => a.value.isNone || a.value ≠ o

variable (a v) in
/-- What is stored after a flush that found `v`. -/
def stored : α := if a.hasChanges then a.get v else v

theorem isSome_committed_of_hasChanges (h : a.hasChanges = true) : a.committed.isSome = true := by
  cases hc : a.committed with
  | none => simp [hasChanges, hc] at h
  | some o => rfl

theorem hasChanges_load (h : a.hasChanges = false) (v : α) : (a.load v).hasChanges = false := by
  cases hv : a.value with
  | some w => simpa [load, hv] using h
  | none => simp [load, hv, loaded, hasChanges]

/-- An attribute that shows no change has the stored value, or none, in memory. -/
theorem Tracks.get_eq (h : a.Tracks v) (hchange : a.hasChanges = false) : a.get v = v := by
  cases hv : a.value with
  | none => simp [get, hv]
  | some w =>
    have hw : w = v := by
      cases hc : a.committed with
      | none => exact h.of_value hc w hv
      | some o =>
        have ho : some w = o := by simpa [hasChanges, hc, hv] using hchange
        exact h.of_committed w (hc.trans (congrArg some ho.symm))
    simp [get, hv, hw]

/-- **Flushing** an attribute stores its value. -/
theorem Tracks.commit (h : a.Tracks v) : a.commit.Tracks (a.stored v) := by
  refine ⟨fun _ w hw => ?_, fun w hw => by simp [Attr.commit] at hw⟩
  have hget : a.get v = w := by
    have hw : a.value = some w := hw
    simp [get, hw]
  unfold stored
  split_ifs with hchange
  · exact hget.symm
  · exact hget.symm.trans (h.get_eq (by simpa using hchange))

end Attr

end Nodeglow
