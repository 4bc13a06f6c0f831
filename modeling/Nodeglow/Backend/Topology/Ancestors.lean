import Nodeglow.Foundation.OrderedDict
import Nodeglow.Foundation.ParentMap

/-!
# Ancestors and descendants of hosts

The topology gives a host its parent, or none. The ancestors of a host are found along the parents,
up to one that was met before; its descendants are searched breadth-first among the items of the
map. Parents can be missing from the map, and can form a cycle.

Both searches end, since a host is met once, and find the same relation (`mem_getAncestors`,
`mem_getDescendants`). A host on a cycle is among its own ancestors, but not among its own
descendants.

## Main results

* `ancestors_descendants` — the two are converse, and find no host twice.

Source: `backend/services/topology.py`, lines 211–238.
-/

namespace Nodeglow.HostTopology

open ParentMap

/-- The parents of hosts, by the ids of the hosts. -/
abbrev Topology := OrderedDict ℤ (Option ℤ)

/-- `topology.get(host)`, of which a missing host has none. -/
def Topology.parent (topology : Topology) (host : ℤ) : Option ℤ := (topology.get host).join

/-- The hosts that have an entry. -/
def Topology.hosts (topology : Topology) : Finset ℤ := (topology.items.map Prod.fst).toFinset

/-- The hosts that are parents. -/
def Topology.parents (topology : Topology) : Finset ℤ :=
  (topology.items.filterMap Prod.snd).toFinset

variable {topology : Topology} {seen : Finset ℤ} {host current parent x : ℤ}

theorem parent_eq_some : topology.parent host = some parent ↔ (host, some parent) ∈ topology.items := by
  rw [OrderedDict.mem_items, Topology.parent, Option.join_eq_some_iff]

theorem parent_mem_parents (h : topology.parent host = some parent) : parent ∈ topology.parents :=
  List.mem_toFinset.mpr (List.mem_filterMap.mpr ⟨_, parent_eq_some.mp h, rfl⟩)

/-! ### Ancestors -/

/-- The loop of `get_ancestors`, at a host and with the parents that it has met. -/
def ancestorsFrom (topology : Topology) (seen : Finset ℤ) (current : ℤ) : List ℤ :=
  match _ : topology.parent current with
  | none => []
  | some parent =>
    if _ : parent ∈ seen then []
    else parent :: ancestorsFrom topology (insert parent seen) parent
termination_by (topology.parents \ seen).card
decreasing_by
  refine Finset.card_lt_card ⟨fun y hy => ?_, fun hsub => ?_⟩
  · have hy' := Finset.mem_sdiff.mp hy
    exact Finset.mem_sdiff.mpr ⟨hy'.1, fun hmem => hy'.2 (Finset.mem_insert_of_mem hmem)⟩
  · have hmem := hsub (Finset.mem_sdiff.mpr ⟨parent_mem_parents ‹_›, ‹_›⟩)
    exact (Finset.mem_sdiff.mp hmem).2 (Finset.mem_insert_self _ _)

/-- `get_ancestors`. -/
def getAncestors (topology : Topology) (hostId : ℤ) : List ℤ := ancestorsFrom topology ∅ hostId

theorem ancestorsFrom_of_none (h : topology.parent current = none) :
    ancestorsFrom topology seen current = [] := by
  rw [ancestorsFrom]
  split
  · rfl
  · next heq => simp [h] at heq

theorem ancestorsFrom_of_some (h : topology.parent current = some parent) :
    ancestorsFrom topology seen current =
      if parent ∈ seen then [] else parent :: ancestorsFrom topology (insert parent seen) parent := by
  rw [ancestorsFrom]
  split
  · next heq => simp [h] at heq
  · next heq =>
    obtain rfl := Option.some.inj (h.symm.trans heq)
    rfl

/-- Of the parents that were met only the last can have a parent that was not. -/
def MetUpTo (topology : Topology) (seen : Finset ℤ) (current : ℤ) : Prop :=
  ∀ x ∈ seen, ∀ y, topology.parent x = some y → y ∈ seen ∨ x = current

theorem MetUpTo.insert (hmet : MetUpTo topology seen current)
    (h : topology.parent current = some parent) :
    MetUpTo topology (insert parent seen) parent := by
  intro x hx y hy
  rcases Finset.mem_insert.mp hx with rfl | hx
  · exact .inr rfl
  · rcases hmet x hx y hy with hmem | rfl
    · exact .inl (Finset.mem_insert_of_mem hmem)
    · obtain rfl := Option.some.inj (h.symm.trans hy)
      exact .inl (Finset.mem_insert_self _ _)

/-- **The loop** finds what is above the host and was not met. -/
theorem mem_ancestorsFrom (hmet : MetUpTo topology seen current) :
    x ∈ ancestorsFrom topology seen current ↔ x ∉ seen ∧ Above topology.parent current x := by
  induction seen, current using ancestorsFrom.induct topology with
  | case1 seen current hnone =>
    rw [ancestorsFrom_of_none hnone]
    simp [not_above_of_none hnone]
  | case2 seen current parent hsome hseen =>
    rw [ancestorsFrom_of_some hsome, if_pos hseen]
    -- What was met is closed under parents, and has all that is above the host.
    have hclosed : ∀ x ∈ (seen : Set ℤ), ∀ y, topology.parent x = some y → y ∈ (seen : Set ℤ) := by
      intro x hx y hy
      rcases hmet x hx y hy with hmem | rfl
      · exact hmem
      · obtain rfl := Option.some.inj (hsome.symm.trans hy)
        exact hseen
    simp only [List.not_mem_nil, false_iff, not_and]
    intro hnot habove
    rcases (above_iff_of_parent hsome).mp habove with rfl | habove
    · exact hnot hseen
    · exact hnot (mem_of_above hclosed hseen habove)
  | case3 seen current parent hsome hseen ih =>
    rw [ancestorsFrom_of_some hsome, if_neg hseen, List.mem_cons, ih (hmet.insert hsome),
      above_iff_of_parent hsome, Finset.mem_insert, not_or, eq_comm (a := x)]
    constructor
    · rintro (rfl | ⟨⟨-, hnot⟩, habove⟩)
      · exact ⟨hseen, .inl rfl⟩
      · exact ⟨hnot, .inr habove⟩
    · rintro ⟨hnot, rfl | habove⟩
      · exact .inl rfl
      · by_cases heq : parent = x
        · exact .inl heq
        · exact .inr ⟨⟨heq, hnot⟩, habove⟩

theorem metUpTo_empty : MetUpTo topology ∅ host := fun _ hx => absurd hx (Finset.notMem_empty _)

/-- **The ancestors** are what is above a host. -/
theorem mem_getAncestors : x ∈ getAncestors topology host ↔ Above topology.parent host x := by
  rw [getAncestors, mem_ancestorsFrom metUpTo_empty]
  simp

theorem nodup_ancestorsFrom (hmet : MetUpTo topology seen current) :
    (ancestorsFrom topology seen current).Nodup := by
  induction seen, current using ancestorsFrom.induct topology with
  | case1 seen current hnone =>
    rw [ancestorsFrom_of_none hnone]
    exact .nil
  | case2 seen current parent hsome hseen =>
    rw [ancestorsFrom_of_some hsome, if_pos hseen]
    exact .nil
  | case3 seen current parent hsome hseen ih =>
    rw [ancestorsFrom_of_some hsome, if_neg hseen]
    refine List.nodup_cons.mpr ⟨fun hmem => ?_, ih (hmet.insert hsome)⟩
    exact ((mem_ancestorsFrom (hmet.insert hsome)).mp hmem).1 (Finset.mem_insert_self _ _)

/-! ### Descendants -/

/-- The state of the search for descendants. -/
structure Search where
  descendants : List ℤ
  seen : Finset ℤ
  queue : List ℤ

/-- An item of the map, in the search below a host. -/
def visit (current : ℤ) (s : Search) (item : ℤ × Option ℤ) : Search :=
  if item.2 = some current ∧ item.1 ∉ s.seen then
    { descendants := s.descendants ++ [item.1]
      seen := insert item.1 s.seen
      queue := s.queue ++ [item.1] }
  else s

/-- All items of the map. -/
def visitAll (topology : Topology) (current : ℤ) (s : Search) : Search :=
  topology.items.foldl (visit current) s

/-- The hosts of the items that are found below a host. -/
def found (items : List (ℤ × Option ℤ)) (current : ℤ) (seen : Finset ℤ) : List ℤ :=
  (items.filter fun item => item.2 = some current ∧ item.1 ∉ seen).map Prod.fst

theorem mem_found {items : List (ℤ × Option ℤ)} :
    x ∈ found items current seen ↔ (x, some current) ∈ items ∧ x ∉ seen := by
  simp [found]

theorem found_insert {items : List (ℤ × Option ℤ)} (h : x ∉ items.map Prod.fst) :
    found items current (insert x seen) = found items current seen := by
  rw [found, found]
  refine congrArg _ (List.filter_congr fun item hitem => ?_)
  have hne : item.1 ≠ x := by
    rintro rfl
    exact h (List.mem_map_of_mem hitem)
  simp [hne]

theorem nodup_found {items : List (ℤ × Option ℤ)} (h : (items.map Prod.fst).Nodup) :
    (found items current seen).Nodup :=
  h.sublist (List.Sublist.map _ List.filter_sublist)

/-- **The items in turn.** -/
theorem foldl_visit {items : List (ℤ × Option ℤ)} (h : (items.map Prod.fst).Nodup) (s : Search) :
    items.foldl (visit current) s =
      { descendants := s.descendants ++ found items current s.seen
        seen := s.seen ∪ (found items current s.seen).toFinset
        queue := s.queue ++ found items current s.seen } := by
  induction items generalizing s with
  | nil => simp [found]
  | cons item items ih =>
    obtain ⟨hnot, h⟩ := List.nodup_cons.mp h
    rw [List.foldl_cons, ih h, visit]
    split_ifs with hitem
    · rw [found_insert hnot]
      simp [found, hitem]
    · simp [found, hitem]

theorem visitAll_eq (topology : Topology) (s : Search) :
    visitAll topology current s =
      { descendants := s.descendants ++ found topology.items current s.seen
        seen := s.seen ∪ (found topology.items current s.seen).toFinset
        queue := s.queue ++ found topology.items current s.seen } :=
  foldl_visit topology.nodup s

/-- The loop of `get_descendants`. -/
def descend (topology : Topology) (s : Search) : List ℤ :=
  match _ : s.queue with
  | [] => s.descendants
  | current :: queue =>
    descend topology (visitAll topology current { s with queue := queue })
termination_by (topology.hosts \ s.seen).card + s.queue.length
decreasing_by
  rw [visitAll_eq, ‹s.queue = _›]
  have hsub : (found topology.items current s.seen).toFinset ⊆ topology.hosts \ s.seen := by
    intro y hy
    have hy' := mem_found.mp (List.mem_toFinset.mp hy)
    exact Finset.mem_sdiff.mpr ⟨List.mem_toFinset.mpr (List.mem_map_of_mem hy'.1), hy'.2⟩
  have hcard := Finset.card_sdiff_add_card_eq_card hsub
  rw [List.toFinset_card_of_nodup (nodup_found topology.nodup), sdiff_sdiff,
    Finset.sup_eq_union] at hcard
  simp only [List.length_append, List.length_cons]
  omega

/-- `get_descendants`. -/
def getDescendants (topology : Topology) (hostId : ℤ) : List ℤ :=
  descend topology { descendants := [], seen := {hostId}, queue := [hostId] }

theorem descend_of_nil {s : Search} (h : s.queue = []) : descend topology s = s.descendants := by
  rw [descend]
  split
  · rfl
  · next heq => simp [h] at heq

theorem descend_of_cons {s : Search} {queue : List ℤ} (h : s.queue = current :: queue) :
    descend topology s =
      descend topology (visitAll topology current { s with queue := queue }) := by
  rw [descend]
  split
  · next heq => simp [h] at heq
  · next heq =>
    obtain ⟨rfl, rfl⟩ := List.cons.inj (h.symm.trans heq)
    rfl

/-- The state of the search below a host: what it has seen, and that only the children of the hosts
in the queue may be missing. -/
structure Search.Below (topology : Topology) (host : ℤ) (s : Search) : Prop where
  nodup : s.descendants.Nodup
  notMem : host ∉ s.descendants
  seen_eq : s.seen = insert host s.descendants.toFinset
  above : ∀ x ∈ s.descendants, Above topology.parent x host
  queue_subset : ∀ x ∈ s.queue, x ∈ s.seen
  closed : ∀ x ∈ s.seen, ∀ y, topology.parent y = some x → x ∈ s.queue ∨ y ∈ s.seen

theorem below_start : Search.Below topology host ⟨[], {host}, [host]⟩ where
  nodup := .nil
  notMem := List.not_mem_nil
  seen_eq := by simp
  above := nofun
  queue_subset := by simp
  closed x hx y _ := .inl (by simpa using hx)

/-- **The hosts below the next one** are seen. -/
theorem Search.Below.step {s : Search} {queue : List ℤ} (hbelow : s.Below topology host)
    (hqueue : s.queue = current :: queue) :
    (visitAll topology current { s with queue := queue }).Below topology host := by
  rw [visitAll_eq]
  have hcurrent : current ∈ s.seen := hbelow.queue_subset current (hqueue ▸ List.mem_cons_self)
  have hfound : ∀ x ∈ found topology.items current s.seen,
      topology.parent x = some current ∧ x ∉ s.seen := fun x hx =>
    ⟨parent_eq_some.mpr (mem_found.mp hx).1, (mem_found.mp hx).2⟩
  have hseen : ∀ x, x ∈ s.seen ↔ x = host ∨ x ∈ s.descendants := fun x => by
    rw [hbelow.seen_eq, Finset.mem_insert, List.mem_toFinset]
  constructor
  · refine List.nodup_append.mpr ⟨hbelow.nodup, nodup_found topology.nodup, ?_⟩
    rintro x hx y hy rfl
    exact (hfound x hy).2 ((hseen x).mpr (.inr hx))
  · intro hmem
    rcases List.mem_append.mp hmem with hmem | hmem
    · exact hbelow.notMem hmem
    · exact (hfound host hmem).2 ((hseen host).mpr (.inl rfl))
  · rw [hbelow.seen_eq, List.toFinset_append, Finset.insert_union]
  · intro x hx
    rcases List.mem_append.mp hx with hx | hx
    · exact hbelow.above x hx
    · rw [above_iff_of_parent (hfound x hx).1]
      rcases (hseen current).mp hcurrent with heq | hmem
      · exact .inl heq
      · exact .inr (hbelow.above current hmem)
  · intro x hx
    rcases List.mem_append.mp hx with hx | hx
    · exact Finset.mem_union_left _
        (hbelow.queue_subset x (hqueue ▸ List.mem_cons_of_mem _ hx))
    · exact Finset.mem_union_right _ (List.mem_toFinset.mpr hx)
  · intro x hx y hy
    rcases Finset.mem_union.mp hx with hx | hx
    · rcases hbelow.closed x hx y hy with hmem | hmem
      · rw [hqueue] at hmem
        rcases List.mem_cons.mp hmem with rfl | hmem
        · by_cases hyseen : y ∈ s.seen
          · exact .inr (Finset.mem_union_left _ hyseen)
          · have hyfound := mem_found.mpr ⟨parent_eq_some.mp hy, hyseen⟩
            exact .inr (Finset.mem_union_right _ (List.mem_toFinset.mpr hyfound))
        · exact .inl (List.mem_append_left _ hmem)
      · exact .inr (Finset.mem_union_left _ hmem)
    · exact .inl (List.mem_append_right _ (List.mem_toFinset.mp hx))

/-- At the end of the search, all hosts below are found. -/
theorem Search.Below.mem_iff {s : Search} (hbelow : s.Below topology host) (hqueue : s.queue = []) :
    x ∈ s.descendants ↔ x ≠ host ∧ Above topology.parent x host := by
  constructor
  · intro hx
    exact ⟨fun heq => hbelow.notMem (heq ▸ hx), hbelow.above x hx⟩
  · rintro ⟨hne, habove⟩
    have hmem : x ∈ s.seen := by
      have hhost : host ∈ s.seen := by
        rw [hbelow.seen_eq]
        exact Finset.mem_insert_self _ _
      clear hne
      -- Along the way down from the host.
      induction habove using Relation.TransGen.head_induction_on with
      | single hstep =>
        exact (hbelow.closed host hhost _ hstep).resolve_left (by simp [hqueue])
      | head hstep _ ih => exact (hbelow.closed _ ih _ hstep).resolve_left (by simp [hqueue])
    rw [hbelow.seen_eq, Finset.mem_insert, List.mem_toFinset] at hmem
    exact hmem.resolve_left hne

/-- **The search** finds each host below once. -/
theorem Search.Below.result {s : Search} (hbelow : s.Below topology host) :
    (descend topology s).Nodup ∧
      ∀ x, x ∈ descend topology s ↔ x ≠ host ∧ Above topology.parent x host := by
  induction s using descend.induct topology with
  | case1 s hqueue =>
    rw [descend_of_nil hqueue]
    exact ⟨hbelow.nodup, fun x => hbelow.mem_iff hqueue⟩
  | case2 s current queue hqueue ih =>
    rw [descend_of_cons hqueue]
    exact ih (hbelow.step hqueue)

/-- **The descendants** are the other hosts below. -/
theorem mem_getDescendants : x ∈ getDescendants topology host ↔
    x ≠ host ∧ Above topology.parent x host :=
  below_start.result.2 x

/-- **Ancestors and descendants are converse**, and no host is found twice. -/
theorem ancestors_descendants (topology : Topology) :
    (∀ a b, a ≠ b → (a ∈ getAncestors topology b ↔ b ∈ getDescendants topology a)) ∧
      ∀ host, (getAncestors topology host).Nodup ∧ (getDescendants topology host).Nodup := by
  refine ⟨fun a b hne => ?_, fun host => ⟨?_, below_start.result.1⟩⟩
  · rw [mem_getAncestors, mem_getDescendants]
    exact ⟨fun h => ⟨hne.symm, h⟩, And.right⟩
  · exact nodup_ancestorsFrom metUpTo_empty

theorem ancestors_descendants_sample :
    (2 ∈ getAncestors (OrderedDict.empty.set 1 (some 2)) 1 ↔
      1 ∈ getDescendants (OrderedDict.empty.set 1 (some 2)) 2) :=
  (ancestors_descendants _).1 2 1 (by decide)

end Nodeglow.HostTopology
