import Mathlib.Data.List.Nodup

/-!
# Dictionaries

A dictionary with the order in which its keys were added. A new value for a key that is there keeps
its place.

## Main definitions

* `OrderedDict`, `OrderedDict.get`, `OrderedDict.set`.

## Main results

* `OrderedDict.get_set` — the values after a change.
* `OrderedDict.mem_items` — the items are the keys with their values.
-/

namespace Nodeglow

universe u v

/-- A dictionary, with its items in order. -/
structure OrderedDict (κ : Type u) (ν : Type v) where
  items : List (κ × ν)
  nodup : (items.map Prod.fst).Nodup

namespace OrderedDict

variable {κ : Type u} {ν : Type v}

/-- No items. -/
def empty : OrderedDict κ ν := ⟨[], .nil⟩

variable [DecidableEq κ]

/-- `d.get(k)`. -/
def get (d : OrderedDict κ ν) (k : κ) : Option ν := d.items.lookup k

/-- An item after a change. -/
def replace (k : κ) (v : ν) (e : κ × ν) : κ × ν := if e.1 = k then (k, v) else e

theorem fst_replace (k : κ) (v : ν) (e : κ × ν) : (replace k v e).1 = e.1 := by
  rw [replace]
  split_ifs with h
  · exact h.symm
  · rfl

theorem map_fst_replace (k : κ) (v : ν) (items : List (κ × ν)) :
    (items.map (replace k v)).map Prod.fst = items.map Prod.fst := by
  rw [List.map_map]
  exact List.map_congr_left fun e _ => fst_replace k v e

/-- `d[k] = v`. -/
def set (d : OrderedDict κ ν) (k : κ) (v : ν) : OrderedDict κ ν :=
  if h : k ∈ d.items.map Prod.fst then
    { items := d.items.map (replace k v)
      nodup := by rw [map_fst_replace]; exact d.nodup }
  else
    { items := d.items ++ [(k, v)]
      nodup := by
        rw [List.map_append, List.nodup_append_comm]
        exact List.nodup_cons.mpr ⟨h, d.nodup⟩ }

variable {d : OrderedDict κ ν} {k k' : κ} {v v' : ν}

theorem lookup_eq_some {items : List (κ × ν)} (h : (items.map Prod.fst).Nodup) :
    items.lookup k = some v ↔ (k, v) ∈ items := by
  induction items with
  | nil => exact ⟨nofun, nofun⟩
  | cons e items ih =>
    obtain ⟨hnot, h⟩ := List.nodup_cons.mp h
    rw [List.lookup_cons, List.mem_cons]
    by_cases hk : k = e.1
    · rw [beq_iff_eq.mpr hk]
      constructor
      · intro heq
        exact .inl (Prod.ext hk (Option.some.inj heq).symm)
      · rintro (rfl | hmem)
        · rfl
        · exact absurd (hk ▸ List.mem_map_of_mem hmem) hnot
    · rw [beq_eq_false_iff_ne.mpr hk]
      refine (ih h).trans ⟨.inr, fun hmem => hmem.resolve_left fun heq => hk ?_⟩
      rw [← heq]

/-- **The items** are the keys with their values. -/
theorem mem_items : (k, v) ∈ d.items ↔ d.get k = some v := (lookup_eq_some d.nodup).symm

theorem mem_keys : k ∈ d.items.map Prod.fst ↔ ∃ v, d.get k = some v := by
  rw [List.mem_map]
  constructor
  · rintro ⟨e, he, rfl⟩
    exact ⟨e.2, mem_items.mp he⟩
  · rintro ⟨v, hv⟩
    exact ⟨(k, v), mem_items.mpr hv, rfl⟩

theorem get_set : (d.set k v).get k' = if k' = k then some v else d.get k' := by
  refine Option.ext fun w => ?_
  rw [← mem_items, set]
  split_ifs with hk hkey hkey
  · subst hkey
    obtain ⟨w', hw'⟩ := List.mem_map.mp hk
    constructor
    · rintro hmem
      obtain ⟨e, -, he⟩ := List.mem_map.mp hmem
      have hfst : e.1 = k' := by rw [← fst_replace k' v e, he]
      rw [replace, if_pos hfst] at he
      rw [← (Prod.mk.inj he).2]
    · intro hw
      obtain rfl := Option.some.inj hw
      exact List.mem_map.mpr ⟨w', hw'.1, by rw [replace, if_pos hw'.2]⟩
  · rw [← mem_items]
    constructor
    · intro hmem
      obtain ⟨e, he, heq⟩ := List.mem_map.mp hmem
      have hfst : e.1 ≠ k := by rw [← fst_replace k v e, heq]; exact hkey
      rw [replace, if_neg hfst] at heq
      exact heq ▸ he
    · intro hmem
      exact List.mem_map.mpr ⟨_, hmem, if_neg hkey⟩
  · subst hkey
    constructor
    · intro hmem
      rcases List.mem_append.mp hmem with hmem | hmem
      · exact absurd (List.mem_map_of_mem hmem) hk
      · rw [(Prod.mk.inj (List.mem_singleton.mp hmem)).2]
    · intro hw
      obtain rfl := Option.some.inj hw
      exact List.mem_append_right _ (List.mem_singleton.mpr rfl)
  · rw [← mem_items]
    constructor
    · intro hmem
      refine (List.mem_append.mp hmem).resolve_right fun hmem => hkey ?_
      exact (Prod.mk.inj (List.mem_singleton.mp hmem)).1
    · exact List.mem_append_left _

/-- A key that has the value already. -/
theorem set_of_get (h : d.get k = some v) : d.set k v = d := by
  have hk : k ∈ d.items.map Prod.fst := mem_keys.mpr ⟨v, h⟩
  have hitems : d.items.map (replace k v) = d.items := by
    refine (List.map_congr_left fun e he => ?_).trans (List.map_id _)
    rw [replace]
    split_ifs with hfst
    · have hget : d.get k = some e.2 := hfst ▸ mem_items.mp he
      rw [h, Option.some.injEq] at hget
      rw [hget, ← hfst]
      rfl
    · rfl
  obtain ⟨items, hnodup⟩ := d
  rw [set, dif_pos hk]
  simp only [hitems]

/-- Keys with values that are set one after another, if they are different keys. -/
theorem get_foldl_set {items : List (κ × ν)} (h : (items.map Prod.fst).Nodup) :
    (items.foldl (fun d e => d.set e.1 e.2) d).get k = some v ↔
      (k, v) ∈ items ∨ k ∉ items.map Prod.fst ∧ d.get k = some v := by
  induction items generalizing d with
  | nil => simp
  | cons e items ih =>
    rw [List.map_cons, List.nodup_cons] at h
    rw [List.foldl_cons, ih h.2, get_set]
    by_cases hk : k = e.1
    · subst hk
      have hnot : (e.1, v) ∉ items := fun hmem => h.1 (List.mem_map.mpr ⟨_, hmem, rfl⟩)
      simp [hnot, h.1, Prod.ext_iff, eq_comm]
    · simp [hk, Prod.ext_iff]

end OrderedDict

end Nodeglow
