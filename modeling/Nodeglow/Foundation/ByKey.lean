import Mathlib.Data.List.Induction
import Mathlib.Data.List.Nodup
import Mathlib.Order.Lattice

/-!
# Dictionaries that keep one item for each key

A program that goes through a list of items and puts each of them into a dictionary under its key,
unless there is one already, keeps for every key the first item of the list that has it. If it also
puts an item in the place of one with a lower score, it keeps for every key an item with the
greatest score. The entries stand in the order in which their keys came first.

## Main definitions

* `firstByKey`, `bestByKey` — the dictionaries, as the lists of their entries.

## Main results

* `mem_firstByKey` — an entry is the first item with its key.
* `nodup_firstByKey` — a key has one entry.
* `firstByKey_filter`, `filter_bestByKey` — the entries of some keys are those of the items with
  these keys.
* `bestByKey_flatMap` — items that come in groups with keys of their own.
* `exists_bestByKey_of_forall` — items with one key.
-/

namespace Nodeglow

/-! ### The first item -/

section First

variable {α κ : Type*} [DecidableEq κ] {key : α → κ} {items : List α} {k : κ} {a : α}

/-- One `setdefault` after the other. -/
def firstByKey (key : α → κ) (items : List α) : List (κ × α) :=
  items.foldl (fun found a =>
    if key a ∈ found.map Prod.fst then found else found ++ [(key a, a)]) []

theorem firstByKey_concat (key : α → κ) (items : List α) (a : α) :
    firstByKey key (items ++ [a]) =
      if key a ∈ (firstByKey key items).map Prod.fst then firstByKey key items
      else firstByKey key items ++ [(key a, a)] := by
  rw [firstByKey, List.foldl_append]
  rfl

/-- The entry of a key is the first item with it. -/
theorem mem_firstByKey :
    (k, a) ∈ firstByKey key items ↔ items.find? (fun a => key a = k) = some a := by
  induction items using List.reverseRecOn generalizing k a with
  | nil => simp [firstByKey]
  | append_singleton items b ih =>
    have hkeys : ∀ k, k ∈ (firstByKey key items).map Prod.fst ↔
        (items.find? fun a => key a = k).isSome := by
      intro k
      simp only [List.mem_map, Prod.exists, exists_and_right, exists_eq_right, ih,
        Option.isSome_iff_exists]
    rw [firstByKey_concat, List.find?_append]
    cases hfirst : items.find? (fun a => key a = k) with
    | some first =>
      -- The new item does not replace the entry.
      have hk : k ∈ (firstByKey key items).map Prod.fst := by simp [hkeys, hfirst]
      rw [Option.some_or, ← hfirst, ← ih]
      split
      · exact Iff.rfl
      · rename_i hb
        rw [List.mem_append, or_iff_left]
        intro hmem
        obtain ⟨rfl, -⟩ := Prod.mk.inj (List.mem_singleton.mp hmem)
        exact hb hk
    | none =>
      have hnone : (k, a) ∉ firstByKey key items := by simp [ih, hfirst]
      rw [Option.none_or]
      split
      · rename_i hb
        have hbk : key b ≠ k := by
          rintro rfl
          simp [hkeys, hfirst] at hb
        simp [hnone, hbk]
      · rw [List.mem_append, or_iff_right hnone]
        by_cases hbk : key b = k <;> simp [hbk, eq_comm]

/-- The keys of the dictionary are those of the items. -/
theorem mem_keys_firstByKey : k ∈ (firstByKey key items).map Prod.fst ↔ ∃ a ∈ items, key a = k := by
  simp only [List.mem_map, Prod.exists, exists_and_right, exists_eq_right, mem_firstByKey]
  rw [← Option.isSome_iff_exists, List.find?_isSome]
  simp

theorem nodup_firstByKey (key : α → κ) (items : List α) :
    ((firstByKey key items).map Prod.fst).Nodup := by
  induction items using List.reverseRecOn with
  | nil => exact List.nodup_nil
  | append_singleton items b ih =>
    rw [firstByKey_concat]
    split
    · exact ih
    · rename_i hb
      rw [List.map_append, List.nodup_append]
      refine ⟨ih, by simp, fun x hx y hy => ?_⟩
      obtain rfl := List.mem_singleton.mp hy
      rintro rfl
      exact hb hx

theorem key_of_mem_firstByKey {e : κ × α} (h : e ∈ firstByKey key items) : key e.2 = e.1 := by
  simpa using List.find?_some (mem_firstByKey.mp h)

/-- The entries of some of the keys are those of the items with these keys. -/
theorem firstByKey_filter (q : κ → Bool) (key : α → κ) (items : List α) :
    firstByKey key (items.filter fun a => q (key a)) =
      (firstByKey key items).filter fun e => q e.1 := by
  induction items using List.reverseRecOn with
  | nil => rfl
  | append_singleton items a ih =>
    rw [List.filter_append, firstByKey_concat]
    by_cases hq : q (key a) = true
    · have hkeys : key a ∈ ((firstByKey key items).filter fun e => q e.1).map Prod.fst ↔
          key a ∈ (firstByKey key items).map Prod.fst := by
        simp only [List.mem_map, List.mem_filter]
        constructor
        · rintro ⟨e, ⟨he, -⟩, hkey⟩
          exact ⟨e, he, hkey⟩
        · rintro ⟨e, he, hkey⟩
          exact ⟨e, ⟨he, hkey ▸ hq⟩, hkey⟩
      have hone : [a].filter (fun a => q (key a)) = [a] := List.filter_cons_of_pos hq
      have hlast : [(key a, a)].filter (fun e => q e.1) = [(key a, a)] := List.filter_cons_of_pos hq
      rw [hone, firstByKey_concat, ih]
      simp only [hkeys]
      split_ifs
      · rfl
      · rw [List.filter_append, hlast]
    · have hnone : [a].filter (fun a => q (key a)) = [] := List.filter_cons_of_neg hq
      have hlast : [(key a, a)].filter (fun e => q e.1) = [] := List.filter_cons_of_neg hq
      rw [hnone, List.append_nil, ih]
      split_ifs
      · rfl
      · rw [List.filter_append, hlast, List.append_nil]

end First

/-! ### The best item -/

section Best

variable {α β κ T : Type*} [DecidableEq κ] [LinearOrder T]

/-- Put an item into the dictionary, if it is the first or the best one of its key. -/
def keepBest (key : α → κ) (score : α → T) (found : List (κ × α)) (a : α) : List (κ × α) :=
  match found.lookup (key a) with
  | none => found ++ [(key a, a)]
  | some best =>
    if score best < score a then found.map fun e => if e.1 = key a then (e.1, a) else e else found

/-- The best items by their keys. -/
def bestByKey (key : α → κ) (score : α → T) (items : List α) : List (κ × α) :=
  items.foldl (keepBest key score) []

variable {key : α → κ} {score : α → T} {found found' : List (κ × α)} {items items' : List α} {a : α}
  {k : κ}

theorem bestByKey_concat : bestByKey key score (items ++ [a]) =
    keepBest key score (bestByKey key score items) a := by
  rw [bestByKey, List.foldl_append]
  rfl

theorem mem_keys_keepBest (h : k ∈ (keepBest key score found a).map Prod.fst) :
    k ∈ found.map Prod.fst ∨ k = key a := by
  unfold keepBest at h
  split at h
  · simpa using h
  · split_ifs at h
    · have hkeys : (found.map fun e => if e.1 = key a then (e.1, a) else e).map Prod.fst =
          found.map Prod.fst := by
        rw [List.map_map]
        refine List.map_congr_left fun e _ => ?_
        dsimp only [Function.comp]
        split_ifs <;> rfl
      exact .inl (hkeys ▸ h)
    · exact .inl h

/-- A key of the dictionary is one of an item. -/
theorem exists_of_mem_keys (h : k ∈ (bestByKey key score items).map Prod.fst) :
    ∃ a ∈ items, key a = k := by
  induction items using List.reverseRecOn with
  | nil => cases h
  | append_singleton items a ih =>
    rw [bestByKey_concat] at h
    rcases mem_keys_keepBest h with h | rfl
    · obtain ⟨b, hb, hkey⟩ := ih h
      exact ⟨b, List.mem_append_left _ hb, hkey⟩
    · exact ⟨a, by simp, rfl⟩

/-- An entry is an item under its key. -/
theorem mem_bestByKey (h : (k, a) ∈ bestByKey key score items) : a ∈ items ∧ key a = k := by
  induction items using List.reverseRecOn generalizing k a with
  | nil => cases h
  | append_singleton items b ih =>
    rw [bestByKey_concat, keepBest] at h
    have hold (hmem : (k, a) ∈ bestByKey key score items) : a ∈ items ++ [b] ∧ key a = k :=
      ⟨List.mem_append_left _ (ih hmem).1, (ih hmem).2⟩
    split at h
    · rcases List.mem_append.mp h with h | h
      · exact hold h
      · obtain ⟨rfl, rfl⟩ := Prod.mk.inj (List.mem_singleton.mp h)
        exact ⟨by simp, rfl⟩
    · split_ifs at h
      · obtain ⟨e, he, heq⟩ := List.mem_map.mp h
        split_ifs at heq with hkey
        · obtain ⟨rfl, rfl⟩ := Prod.mk.inj heq
          exact ⟨by simp, hkey.symm⟩
        · exact hold (heq ▸ he)
      · exact hold h

/-- An item is put behind the entries of other keys. -/
theorem keepBest_append (h : key a ∉ found.map Prod.fst) :
    keepBest key score (found ++ found') a = found ++ keepBest key score found' a := by
  have hlookup : (found ++ found').lookup (key a) = found'.lookup (key a) := by
    rw [List.lookup_append, List.lookup_eq_none_iff.mpr, Option.none_or]
    intro e he
    have hne : key a ≠ e.1 := fun heq => h (heq ▸ List.mem_map_of_mem he)
    simpa using hne
  have hmap : (found.map fun e => if e.1 = key a then (e.1, a) else e) = found := by
    refine (List.map_congr_left fun e he => ?_).trans (List.map_id found)
    rw [if_neg]
    · rfl
    · exact fun heq => h (heq ▸ List.mem_map_of_mem he)
  unfold keepBest
  rw [hlookup]
  split
  · rw [List.append_assoc]
  · split_ifs
    · rw [List.map_append, hmap]
    · rfl

theorem foldl_keepBest_append (h : ∀ a ∈ items, key a ∉ found.map Prod.fst) :
    items.foldl (keepBest key score) (found ++ found') =
      found ++ items.foldl (keepBest key score) found' := by
  induction items generalizing found' with
  | nil => rfl
  | cons a items ih =>
    obtain ⟨ha, hitems⟩ := List.forall_mem_cons.mp h
    rw [List.foldl_cons, List.foldl_cons, keepBest_append ha, ih hitems]

/-- Items with other keys are put behind. -/
theorem bestByKey_append (h : ∀ a ∈ items, ∀ b ∈ items', key a ≠ key b) :
    bestByKey key score (items ++ items') =
      bestByKey key score items ++ bestByKey key score items' := by
  have hkeys : ∀ b ∈ items', key b ∉ (bestByKey key score items).map Prod.fst := by
    intro b hb hmem
    obtain ⟨a, ha, hkey⟩ := exists_of_mem_keys hmem
    exact h a ha b hb hkey
  have hfold : items'.foldl (keepBest key score) (bestByKey key score items ++ []) =
      bestByKey key score items ++ bestByKey key score items' := foldl_keepBest_append hkeys
  rw [List.append_nil] at hfold
  rw [bestByKey, List.foldl_append]
  exact hfold

/-- **Items that come in groups** with keys of their own. -/
theorem bestByKey_flatMap {groups : List β} {g : β → List α}
    (h : groups.Pairwise fun x y => ∀ a ∈ g x, ∀ b ∈ g y, key a ≠ key b) :
    bestByKey key score (groups.flatMap g) = groups.flatMap fun x => bestByKey key score (g x) := by
  induction groups with
  | nil => rfl
  | cons x groups ih =>
    obtain ⟨hx, hgroups⟩ := List.pairwise_cons.mp h
    rw [List.flatMap_cons, List.flatMap_cons, bestByKey_append, ih hgroups]
    intro a ha b hb
    obtain ⟨y, hy, hb⟩ := List.mem_flatMap.mp hb
    exact hx y hy a ha b hb

theorem lookup_filter {p : κ → Bool} (hp : p k = true) :
    (found.filter fun e => p e.1).lookup k = found.lookup k := by
  induction found with
  | nil => rfl
  | cons e found ih =>
    rw [List.filter_cons, List.lookup_cons]
    by_cases he : k = e.1
    · subst he
      rw [if_pos hp, List.lookup_cons, beq_self_eq_true]
    · have hne : (k == e.1) = false := by simpa using he
      split_ifs
      · rw [List.lookup_cons, hne, ih]
      · rw [hne, ih]

theorem filter_keepBest (p : κ → Bool) : (keepBest key score found a).filter (fun e => p e.1) =
    if p (key a) then keepBest key score (found.filter fun e => p e.1) a
    else found.filter fun e => p e.1 := by
  have hmap : (found.map fun e => if e.1 = key a then (e.1, a) else e).filter (fun e => p e.1) =
      (found.filter fun e => p e.1).map fun e => if e.1 = key a then (e.1, a) else e := by
    rw [List.filter_map]
    congr 1
    refine List.filter_congr fun e _ => ?_
    dsimp only [Function.comp]
    split_ifs <;> rfl
  split_ifs with hp
  · unfold keepBest
    rw [lookup_filter hp]
    split
    · rw [List.filter_append]
      simp [hp]
    · split_ifs
      · exact hmap
      · rfl
  · unfold keepBest
    split
    · rw [List.filter_append]
      simp [hp]
    · split_ifs
      · rw [hmap]
        refine (List.map_congr_left fun e he => ?_).trans (List.map_id _)
        rw [if_neg]
        · rfl
        · rintro heq
          exact hp (heq ▸ (List.mem_filter.mp he).2)
      · rfl

/-- **The entries of some keys** are those of the items with these keys. -/
theorem filter_bestByKey (p : κ → Bool) : (bestByKey key score items).filter (fun e => p e.1) =
    bestByKey key score (items.filter fun a => p (key a)) := by
  induction items using List.reverseRecOn with
  | nil => rfl
  | append_singleton items a ih =>
    rw [bestByKey_concat, filter_keepBest, List.filter_append, ih]
    split_ifs with hp
    · rw [List.filter_cons, if_pos hp, List.filter_nil, bestByKey_concat]
    · rw [List.filter_cons, if_neg hp, List.filter_nil, List.append_nil]

/-- **Items with one key** have one entry, an item with the greatest score. -/
theorem exists_bestByKey_of_forall (score : α → T) (hne : items ≠ [])
    (h : ∀ a ∈ items, key a = k) :
    ∃ b ∈ items, bestByKey key score items = [(k, b)] ∧ ∀ a ∈ items, score a ≤ score b := by
  induction items using List.reverseRecOn with
  | nil => exact absurd rfl hne
  | append_singleton items a ih =>
    have hkey : key a = k := h a (by simp)
    have hitems : ∀ b ∈ items, key b = k := fun b hb => h b (List.mem_append_left _ hb)
    rw [bestByKey_concat]
    rcases List.eq_nil_or_concat items with rfl | ⟨_, _, hcons⟩
    · exact ⟨a, by simp, by simp [keepBest, bestByKey, hkey], by simp⟩
    · obtain ⟨b, hb, hbest, hmax⟩ := ih (by simp [hcons]) hitems
      have hlookup : (bestByKey key score items).lookup (key a) = some b := by
        rw [hbest, hkey]
        simp
      unfold keepBest
      rw [hlookup, hbest]
      dsimp only
      split_ifs with hlt
      · refine ⟨a, by simp, by simp [hkey], fun c hc => ?_⟩
        rcases List.mem_append.mp hc with hc | hc
        · exact (hmax c hc).trans hlt.le
        · rw [List.mem_singleton.mp hc]
      · refine ⟨b, List.mem_append_left _ hb, rfl, fun c hc => ?_⟩
        rcases List.mem_append.mp hc with hc | hc
        · exact hmax c hc
        · exact List.mem_singleton.mp hc ▸ not_lt.mp hlt

end Best

end Nodeglow
