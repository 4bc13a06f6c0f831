import Mathlib.Data.List.Induction
import Mathlib.Order.Lattice

/-!
# Registers of the newest record

A register has the time of a record, or none, and a value. A record that is not older than the one
in the register takes its place; some records leave the value as it is. After a list of records the
register has the newest of them, unless it was newer before, and of those with the same time the
last one; the same list again changes nothing.

## Main definitions

* `Newest.record`, `Newest.recordAll` — one record, and a list of records.
* `Newest.IsNewest` — a register has the newest of some entries.

## Main results

* `Newest.isNewest_recordAll` — what a register has after a list of records.
* `Newest.isNewest_iff_of_subset` — when it has the newest of more entries than were recorded.
* `Newest.recordAll_recordAll` — the same records again.
-/

namespace Nodeglow.Newest

variable {T α : Type*} [LinearOrder T]

/-- A record takes the place of one that is not newer; it may leave the value. -/
def record (s : Option T × α) (w : T × Option α) : Option T × α :=
  if ∀ t ∈ s.1, t ≤ w.1 then (some w.1, w.2.getD s.2) else s

/-- The records one after the other. -/
def recordAll (s : Option T × α) (ws : List (T × Option α)) : Option T × α := ws.foldl record s

/-- The record in a register. -/
def entries (s : Option T × α) : List (T × α) := s.1.toList.map fun t => (t, s.2)

/-- A register has the newest of the entries: it is empty where there are none. -/
def IsNewest (l : List (T × α)) (s : Option T × α) : Prop :=
  match s.1 with
  | none => l = []
  | some t => (t, s.2) ∈ l ∧ ∀ c ∈ l, c.1 ≤ t

variable {s : Option T × α} {w : T × Option α} {ws : List (T × Option α)} {t : T}

theorem record_of_le (h : ∀ t ∈ s.1, t ≤ w.1) : record s w = (some w.1, w.2.getD s.2) := if_pos h

theorem record_of_lt (ht : s.1 = some t) (h : w.1 < t) : record s w = s := by
  refine if_neg fun hle => ?_
  exact absurd (hle t ht) (not_le.mpr h)

theorem recordAll_append (ws' : List (T × Option α)) :
    recordAll s (ws ++ ws') = recordAll (recordAll s ws) ws' := List.foldl_append

theorem recordAll_concat : recordAll s (ws ++ [w]) = record (recordAll s ws) w := by
  rw [recordAll_append]
  rfl

/-- Older records change nothing. -/
theorem recordAll_of_lt (ht : s.1 = some t) (h : ∀ w ∈ ws, w.1 < t) : recordAll s ws = s := by
  induction ws with
  | nil => rfl
  | cons w ws ih =>
    obtain ⟨hw, hws⟩ := List.forall_mem_cons.mp h
    rw [recordAll, List.foldl_cons, record_of_lt ht hw]
    exact ih hws

/-- The register is at least as new as the records, and as it was. -/
theorem le_recordAll (s : Option T × α) (ws : List (T × Option α)) :
    (∀ t ∈ s.1, ∃ m ∈ (recordAll s ws).1, t ≤ m) ∧
      ∀ w ∈ ws, ∃ m ∈ (recordAll s ws).1, w.1 ≤ m := by
  induction ws using List.reverseRecOn with
  | nil => exact ⟨fun t ht => ⟨t, ht, le_rfl⟩, by simp⟩
  | append_singleton ws w ih =>
    obtain ⟨hstart, hws⟩ := ih
    rw [recordAll_concat]
    by_cases h : ∀ t ∈ (recordAll s ws).1, t ≤ w.1
    · rw [record_of_le h]
      refine ⟨fun t ht => ?_, fun w' hw' => ?_⟩
      · obtain ⟨m, hm, hle⟩ := hstart t ht
        exact ⟨w.1, rfl, hle.trans (h m hm)⟩
      · rcases List.mem_append.mp hw' with hw' | hw'
        · obtain ⟨m, hm, hle⟩ := hws w' hw'
          exact ⟨w.1, rfl, hle.trans (h m hm)⟩
        · obtain rfl := List.mem_singleton.mp hw'
          exact ⟨w'.1, rfl, le_rfl⟩
    · obtain ⟨m, hm, hlt⟩ : ∃ m ∈ (recordAll s ws).1, w.1 < m := by simpa using h
      rw [record_of_lt hm hlt]
      refine ⟨hstart, fun w' hw' => ?_⟩
      rcases List.mem_append.mp hw' with hw' | hw'
      · exact hws w' hw'
      · obtain rfl := List.mem_singleton.mp hw'
        exact ⟨m, hm, hlt.le⟩

/-- The time of the register is that of a record, or the one that it had. -/
theorem time_recordAll (ht : t ∈ (recordAll s ws).1) : t ∈ s.1 ∨ ∃ w ∈ ws, w.1 = t := by
  induction ws using List.reverseRecOn with
  | nil => exact .inl ht
  | append_singleton ws w ih =>
    rw [recordAll_concat, record] at ht
    split_ifs at ht
    · exact .inr ⟨w, by simp, Option.some.inj ht⟩
    · rcases ih ht with h | ⟨w', hw', rfl⟩
      · exact .inl h
      · exact .inr ⟨w', List.mem_append_left _ hw', rfl⟩

/-- The time does not depend on the values. -/
theorem time_congr {β : Type*} {s' : Option T × β} {ws' : List (T × Option β)} (hs : s.1 = s'.1)
    (hws : ws.map Prod.fst = ws'.map Prod.fst) : (recordAll s ws).1 = (recordAll s' ws').1 := by
  induction ws generalizing s s' ws' with
  | nil =>
    obtain rfl := List.map_eq_nil_iff.mp hws.symm
    exact hs
  | cons w ws ih =>
    obtain ⟨w', ws', rfl, hw, hws'⟩ := List.map_eq_cons_iff.mp hws.symm
    change (recordAll (record s w) ws).1 = (recordAll (record s' w') ws').1
    refine ih ?_ hws'.symm
    unfold record
    rw [hs, hw]
    split_ifs <;> simp [hs]

/-- **What a register has after a list of records**: the newest of them and of what it had. -/
theorem isNewest_recordAll (s : Option T × α) (ws : List (T × α)) :
    IsNewest (entries s ++ ws) (recordAll s (ws.map fun w => (w.1, some w.2))) := by
  have hmem : ∀ t ∈ (recordAll s (ws.map fun w => (w.1, some w.2))).1,
      (t, (recordAll s (ws.map fun w => (w.1, some w.2))).2) ∈ entries s ++ ws := by
    induction ws using List.reverseRecOn with
    | nil =>
      intro t ht
      have hs : s.1 = some t := ht
      simp [entries, hs, recordAll]
    | append_singleton ws w ih =>
      rw [List.map_append, List.map_singleton, recordAll_concat]
      unfold record
      split_ifs
      · intro t ht
        obtain rfl := Option.some.inj ht
        simp
      · intro t ht
        rw [← List.append_assoc]
        exact List.mem_append_left _ (ih t ht)
  obtain ⟨hstart, hws⟩ := le_recordAll s (ws.map fun w => (w.1, some w.2))
  unfold IsNewest
  cases htime : (recordAll s (ws.map fun w => (w.1, some w.2))).1 with
  | none =>
    simp only [htime, Option.not_mem_none, false_and, exists_false, imp_false] at hstart hws
    have hs : s.1 = none := Option.eq_none_iff_forall_not_mem.mpr hstart
    have hnil : ws = [] := by
      refine List.eq_nil_iff_forall_not_mem.mpr fun w hw => ?_
      exact hws (w.1, some w.2) (List.mem_map_of_mem hw)
    simp [entries, hs, hnil]
  | some t =>
    refine ⟨hmem t htime, fun c hc => ?_⟩
    simp only [htime, Option.mem_some_iff, exists_eq_left'] at hstart hws
    rcases List.mem_append.mp hc with hc | hc
    · obtain ⟨t', ht', rfl⟩ := List.mem_map.mp hc
      exact hstart t' (Option.mem_toList.mp ht')
    · exact hws _ (List.mem_map_of_mem hc)

/-- **When a register that has the newest of some entries has the newest of more**: exactly when for
each of these one of the former is at least as new. -/
theorem isNewest_iff_of_subset {l l' : List (T × α)} (h : IsNewest l s) (hsub : l ⊆ l') :
    IsNewest l' s ↔ ∀ c ∈ l', ∃ c' ∈ l, c.1 ≤ c'.1 := by
  unfold IsNewest at h ⊢
  cases htime : s.1 with
  | none =>
    rw [htime] at h
    subst h
    simp [List.eq_nil_iff_forall_not_mem]
  | some t =>
    rw [htime] at h
    dsimp only at h ⊢
    constructor
    · rintro ⟨-, hle⟩ c hc
      exact ⟨_, h.1, hle c hc⟩
    · intro hle
      refine ⟨hsub h.1, fun c hc => ?_⟩
      obtain ⟨c', hc', hcc'⟩ := hle c hc
      exact hcc'.trans (h.2 c' hc')

/-- The same records again leave the value, also if the time was set to that of a newer record. -/
theorem recordAll_of_newer (hsame : recordAll (recordAll s ws) ws = recordAll s ws)
    (h : ∀ t' ∈ (recordAll s ws).1, t' ≤ t) :
    (recordAll (some t, (recordAll s ws).2) ws).2 = (recordAll s ws).2 := by
  cases htime : (recordAll s ws).1 with
  | none =>
    have hnil : ws = [] := by
      refine List.eq_nil_iff_forall_not_mem.mpr fun w hw => ?_
      obtain ⟨m, hm, -⟩ := (le_recordAll _ _).2 w hw
      rw [htime] at hm
      cases hm
    rw [hnil]
    rfl
  | some m =>
    rcases (h m htime).lt_or_eq with hlt | rfl
    · have hws : ∀ w ∈ ws, w.1 < t := by
        intro w hw
        obtain ⟨m', hm', hle⟩ := (le_recordAll _ _).2 w hw
        rw [htime, Option.mem_some_iff] at hm'
        exact (hm' ▸ hle).trans_lt hlt
      rw [recordAll_of_lt rfl hws]
    · have heq : (some m, (recordAll s ws).2) = recordAll s ws := Prod.ext htime.symm rfl
      rw [heq, hsame]

/-- **The same records again change nothing.** -/
theorem recordAll_recordAll (s : Option T × α) (ws : List (T × Option α)) :
    recordAll (recordAll s ws) ws = recordAll s ws := by
  induction ws using List.reverseRecOn with
  | nil => rfl
  | append_singleton ws w ih =>
    rw [recordAll_concat, recordAll_concat]
    by_cases h : ∀ t ∈ (recordAll s ws).1, t ≤ w.1
    · rw [record_of_le h]
      -- Of the records before the last one, only those of its time count again.
      have hold : ∀ t ∈ (recordAll (some w.1, w.2.getD (recordAll s ws).2) ws).1, t ≤ w.1 := by
        intro t ht
        rcases time_recordAll ht with ht | ⟨w', hw', rfl⟩
        · exact (Option.some.inj ht).ge
        · obtain ⟨m, hm, hle⟩ := (le_recordAll _ _).2 w' hw'
          exact hle.trans (h m hm)
      rw [record_of_le hold]
      cases hvalue : w.2 with
      | some c => rfl
      | none => rw [Option.getD_none, Option.getD_none, recordAll_of_newer ih h]
    · obtain ⟨m, hm, hlt⟩ : ∃ m ∈ (recordAll s ws).1, w.1 < m := by simpa using h
      rw [record_of_lt hm hlt, ih, record_of_lt hm hlt]

end Nodeglow.Newest
