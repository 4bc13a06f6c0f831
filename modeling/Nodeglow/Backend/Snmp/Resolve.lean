import Nodeglow.Backend.Snmp.Mib

/-!
# Object identifiers in a tree

The object identifier of a name is that of a known root, or that of its parent with the number of
the name. The parser finds it for all names that have one, in any order and also where parents form
a cycle, and reports each of them once if no two names have the same one.

## Main results

* `resolve_spec` — one name, and `get_resolveAll` — all names.
* `Collected.addObject`, `Collected.addKnown` — the entries.

Source: `backend/services/snmp.py`, lines 342–424.
-/

namespace Nodeglow.Mib

/-- **The object identifier of a name**, with the number of steps to the root. -/
inductive HasOid (tree : Tree) : ℕ → String → String → Prop
  | root {name oid} (h : knownRoots.get name = some oid) : HasOid tree 0 name oid
  | step {n name parent num parentOid} (hroot : knownRoots.get name = none)
      (htree : tree.get name = some (parent, num)) (h : HasOid tree n parent parentOid) :
      HasOid tree (n + 1) name (child parentOid num)

variable {tree : Tree} {known : Known} {seen : List String} {name oid oid' parent : String}
  {n m num : ℕ}

/-- A name has one object identifier. -/
theorem HasOid.unique (h : HasOid tree n name oid) (h' : HasOid tree m name oid') :
    n = m ∧ oid = oid' := by
  induction h generalizing m oid' with
  | root hroot =>
    cases h' with
    | root hroot' => exact ⟨rfl, Option.some.inj (hroot.symm.trans hroot')⟩
    | step hroot' => rw [hroot] at hroot'; cases hroot'
  | step hroot htree _ ih =>
    cases h' with
    | root hroot' => rw [hroot] at hroot'; cases hroot'
    | step _ htree' h' =>
      rw [htree, Option.some.injEq, Prod.mk.injEq] at htree'
      obtain ⟨rfl, rfl⟩ := htree'
      obtain ⟨rfl, rfl⟩ := ih h'
      exact ⟨rfl, rfl⟩

/-! ### Resolving -/

/-- **The names that are known so far**: the roots, and names with their object identifiers. -/
structure Sound (tree : Tree) (known : Known) : Prop where
  root : ∀ {name oid}, knownRoots.get name = some oid → known.get name = some oid
  hasOid : ∀ {name oid}, known.get name = some oid → ∃ n, HasOid tree n name oid

theorem sound_knownRoots (tree : Tree) : Sound tree knownRoots where
  root h := h
  hasOid h := ⟨0, .root h⟩

/-- A name that is not known is no root. -/
theorem Sound.root_eq_none (h : Sound tree known) (hget : known.get name = none) :
    knownRoots.get name = none :=
  Option.eq_none_iff_forall_ne_some.mpr fun oid hroot => by
    rw [h.root hroot] at hget
    cases hget

/-- A name that becomes known. -/
theorem Sound.set (h : Sound tree known) (hoid : HasOid tree n name oid) :
    Sound tree (known.set name oid) ∧
      ∀ k v, known.get k = some v → (known.set name oid).get k = some v := by
  have hkeeps (k v) (hget : known.get k = some v) : (known.set name oid).get k = some v := by
    rw [OrderedDict.get_set]
    split_ifs with hk
    · subst hk
      obtain ⟨m, hm⟩ := h.hasOid hget
      rw [(hoid.unique hm).2]
    · exact hget
  refine ⟨⟨fun hroot => hkeeps _ _ (h.root hroot), fun {k v} hget => ?_⟩, hkeeps⟩
  rw [OrderedDict.get_set] at hget
  split_ifs at hget with hk
  · subst hk
    obtain rfl := Option.some.inj hget
    exact ⟨n, hoid⟩
  · exact h.hasOid hget

/-- What resolving a name gives. -/
structure Resolved (tree : Tree) (known : Known) (seen : List String) (name : String)
    (result : Option String × Known) : Prop where
  sound : Sound tree result.2
  keeps : ∀ k v, known.get k = some v → result.2.get k = some v
  get_eq : ∀ oid, result.1 = some oid → result.2.get name = some oid
  found : ∀ {n oid}, HasOid tree n name oid →
    (∀ s ∈ seen, ∀ m ≤ n, ∀ oid', ¬HasOid tree m s oid') → result.1 = some oid

/-- **Resolving a name.** It is found if the names that led to it are farther from the root. -/
theorem resolve_spec (h : Sound tree known) (seen : List String) (name : String) :
    Resolved tree known seen name (resolve tree known seen name) := by
  fun_induction resolve tree known seen name with
  | case1 seen name oid hget =>
    refine ⟨h, fun _ _ h => h, fun _ heq => heq ▸ hget, fun hoid _ => ?_⟩
    obtain ⟨m, hm⟩ := h.hasOid hget
    rw [(hoid.unique hm).2]
  | case2 seen name hget htree =>
    refine ⟨h, fun _ _ h => h, nofun, fun hoid _ => ?_⟩
    cases hoid with
    | root hroot => rw [h.root_eq_none hget] at hroot; cases hroot
    | step _ htree' => rw [htree] at htree'; cases htree'
  | case3 seen name hget parent num htree hseen =>
    exact ⟨h, fun _ _ h => h, nofun, fun hoid hfar => absurd hoid (hfar name hseen _ le_rfl _)⟩
  | case4 seen name hget parent num htree hseen parentOid known' hparent ih =>
    have hresolved := ih
    rw [hparent] at hresolved
    obtain ⟨m, hm⟩ := hresolved.sound.hasOid (hresolved.get_eq parentOid rfl)
    have hname : HasOid tree (m + 1) name (child parentOid num) :=
      .step (h.root_eq_none hget) htree hm
    obtain ⟨hsound, hkeeps⟩ := hresolved.sound.set hname
    refine ⟨hsound, fun k v hk => hkeeps k v (hresolved.keeps k v hk), ?_, fun hoid _ => ?_⟩
    · rintro oid heq
      obtain rfl := Option.some.inj heq
      rw [OrderedDict.get_set, if_pos rfl]
    · rw [(hoid.unique hname).2]
  | case5 seen name hget parent num htree hseen known' hparent ih =>
    have hresolved := ih
    rw [hparent] at hresolved
    refine ⟨hresolved.sound, hresolved.keeps, nofun, fun hoid hfar => ?_⟩
    cases hoid with
    | root hroot => rw [h.root_eq_none hget] at hroot; cases hroot
    | @step n _ parent' num' parentOid hroot htree' hparentOid =>
      rw [htree, Option.some.injEq, Prod.mk.injEq] at htree'
      obtain ⟨rfl, rfl⟩ := htree'
      -- The name itself is one step farther from the root than its parent.
      refine absurd (hresolved.found hparentOid fun s hs m hm oid' hoid' => ?_) nofun
      rcases List.mem_cons.mp hs with rfl | hs
      · have hsame := (hoid'.unique (.step hroot htree hparentOid)).1
        omega
      · exact hfar s hs m (by omega) oid' hoid'

/-- Resolving all names of some items. -/
theorem foldl_resolve (items : List (String × String × ℕ)) (h : Sound tree known) :
    let known' := items.foldl (fun known e => (resolve tree known [] e.1).2) known
    Sound tree known' ∧ (∀ k v, known.get k = some v → known'.get k = some v) ∧
      ∀ e ∈ items, ∀ n oid, HasOid tree n e.1 oid → known'.get e.1 = some oid := by
  induction items generalizing known with
  | nil => exact ⟨h, fun _ _ h => h, nofun⟩
  | cons e items ih =>
    have hresolved := resolve_spec h [] e.1
    obtain ⟨hsound, hkeeps, hall⟩ := ih hresolved.sound
    refine ⟨hsound, fun k v hk => hkeeps k v (hresolved.keeps k v hk), fun e' he' n oid hoid => ?_⟩
    rcases List.mem_cons.mp he' with rfl | he'
    · exact hkeeps _ _ (hresolved.get_eq oid (hresolved.found hoid nofun))
    · exact hall e' he' n oid hoid

/-- **All names** that have an object identifier are known with it, and no others. -/
theorem get_resolveAll : (resolveAll tree).get name = some oid ↔ ∃ n, HasOid tree n name oid := by
  obtain ⟨hsound, -, hall⟩ := foldl_resolve tree.items (sound_knownRoots tree)
  refine ⟨fun h => hsound.hasOid h, ?_⟩
  rintro ⟨n, hoid⟩
  cases hoid with
  | root hroot => exact hsound.root hroot
  | step hroot htree h => exact hall _ (OrderedDict.mem_items.mpr htree) _ _ (.step hroot htree h)

/-! ### Entries -/

/-- **The entries so far**: names of the tree that are no roots, each once, with their object
identifiers. -/
structure Collected (tree : Tree) (p : Progress) : Prop where
  known_eq : p.known = resolveAll tree
  get_eq : ∀ e ∈ p.entries, (resolveAll tree).get e.name = some e.oid
  root_eq : ∀ e ∈ p.entries, knownRoots.get e.name = none
  nodup : (p.entries.map Entry.name).Nodup
  seen_iff : ∀ oid, oid ∈ p.seenOids ↔ ∃ e ∈ p.entries, e.oid = oid

variable {p : Progress} {chars : Characters}

theorem collected_start (tree : Tree) :
    Collected tree { known := resolveAll tree, seenOids := [], entries := [] } where
  known_eq := rfl
  get_eq := nofun
  root_eq := nofun
  nodup := .nil
  seen_iff _ := ⟨nofun, fun ⟨_, h, _⟩ => nomatch h⟩

/-- A new entry. -/
theorem Collected.add (h : Collected tree p) {e : Entry}
    (hget : (resolveAll tree).get e.name = some e.oid)
    (hroot : knownRoots.get e.name = none) (hseen : e.oid ∉ p.seenOids) :
    Collected tree { p with seenOids := e.oid :: p.seenOids, entries := p.entries ++ [e] } where
  known_eq := h.known_eq
  get_eq e' he' := (List.mem_append.mp he').elim (h.get_eq e') fun he' =>
    List.mem_singleton.mp he' ▸ hget
  root_eq e' he' := (List.mem_append.mp he').elim (h.root_eq e') fun he' =>
    List.mem_singleton.mp he' ▸ hroot
  nodup := by
    rw [List.map_append, List.map_singleton, List.nodup_append_comm, List.singleton_append,
      List.nodup_cons]
    refine ⟨fun hmem => hseen ?_, h.nodup⟩
    obtain ⟨e', he', hname⟩ := List.mem_map.mp hmem
    have hget' := h.get_eq e' he'
    rw [hname, hget, Option.some.injEq] at hget'
    exact (h.seen_iff e.oid).mpr ⟨e', he', hget'.symm⟩
  seen_iff oid := by
    rw [List.mem_cons, h.seen_iff]
    simp only [List.mem_append, List.mem_singleton, or_and_right, exists_or, exists_eq_left]
    rw [or_comm, eq_comm]

/-- **A definition of an object**, as it stands in the tree. -/
theorem Collected.addObject (h : Collected tree p) {name body parent digits : List Char}
    (hnum : pyInt digits = some num) (hroot : knownRoots.get (String.ofList name) = none)
    (htree : tree.get (String.ofList name) = some (String.ofList parent, num)) :
    Collected tree (addObject chars p [name, body, parent, digits]) := by
  rw [Mib.addObject, hnum]
  cases hparent : p.known.get (String.ofList parent) with
  | none => exact h
  | some parentOid =>
    rw [h.known_eq] at hparent
    obtain ⟨n, hoid⟩ := get_resolveAll.mp hparent
    have hname : (resolveAll tree).get (String.ofList name) = some (child parentOid num) :=
      get_resolveAll.mpr ⟨n + 1, .step hroot htree hoid⟩
    have hset : p.known.set (String.ofList name) (child parentOid num) = p.known :=
      OrderedDict.set_of_get (h.known_eq ▸ hname)
    simp only [hset]
    split_ifs with hseen
    · exact h
    · exact h.add (e := objectEntry chars (child parentOid num) (String.ofList name) body) hname hroot
        hseen

/-- **A name that is known.** -/
theorem Collected.addKnown (h : Collected tree p)
    (hget : (resolveAll tree).get name = some oid) :
    Collected tree (addKnown tree p (name, oid)) := by
  rw [Mib.addKnown]
  split_ifs with hskip htree
  · exact h
  · exact h
  · rw [not_or, Option.not_isSome_iff_eq_none] at hskip
    exact h.add (e := ⟨oid, name, "", "", false⟩) hget hskip.1 hskip.2

theorem entries_subset_addKnown (tree : Tree) (p : Progress) (e : String × String) :
    p.entries ⊆ (addKnown tree p e).entries := by
  rw [Mib.addKnown]
  split_ifs
  · exact fun _ h => h
  · exact fun _ h => h
  · exact List.subset_append_left _ _

/-- A known name is reported, if no other name has its object identifier. -/
theorem Collected.mem_addKnown (h : Collected tree p)
    (hinj : ∀ name name' oid, (resolveAll tree).get name = some oid → knownRoots.get name = none →
      (resolveAll tree).get name' = some oid → knownRoots.get name' = none → name = name')
    (hget : (resolveAll tree).get name = some oid) (hroot : knownRoots.get name = none) :
    ∃ e ∈ (Mib.addKnown tree p (name, oid)).entries, e.name = name ∧ e.oid = oid := by
  have htree : (tree.get name).isNone = false := by
    obtain ⟨n, hoid⟩ := get_resolveAll.mp hget
    cases hoid with
    | root hroot' => rw [hroot] at hroot'; cases hroot'
    | step _ htree => rw [htree]; rfl
  rw [Mib.addKnown]
  by_cases hseen : oid ∈ p.seenOids
  · rw [if_pos (.inr hseen)]
    obtain ⟨e, he, rfl⟩ := (h.seen_iff oid).mp hseen
    exact ⟨e, he, hinj _ _ _ (h.get_eq e he) (h.root_eq e he) hget hroot, rfl⟩
  · rw [if_neg (by simp [hroot, hseen]), if_neg (by simp [htree])]
    exact ⟨_, List.mem_append_right _ List.mem_cons_self, rfl, rfl⟩

/-- **The entries** after all names that are known. -/
theorem Collected.foldl_addKnown (h : Collected tree p) (items : List (String × String))
    (hitems : ∀ e ∈ items, (resolveAll tree).get e.1 = some e.2)
    (hinj : ∀ name name' oid, (resolveAll tree).get name = some oid → knownRoots.get name = none →
      (resolveAll tree).get name' = some oid → knownRoots.get name' = none → name = name') :
    Collected tree (items.foldl (Mib.addKnown tree) p) ∧
      p.entries ⊆ (items.foldl (Mib.addKnown tree) p).entries ∧
      ∀ e ∈ items, knownRoots.get e.1 = none →
        ∃ e' ∈ (items.foldl (Mib.addKnown tree) p).entries, e'.name = e.1 ∧ e'.oid = e.2 := by
  induction items generalizing p with
  | nil => exact ⟨h, fun _ h => h, nofun⟩
  | cons e items ih =>
    obtain ⟨he, hitems⟩ := List.forall_mem_cons.mp hitems
    obtain ⟨hcollected, hsubset, hall⟩ := ih (h.addKnown he) hitems
    refine ⟨hcollected, fun x hx => hsubset (entries_subset_addKnown tree p e hx),
      fun e' he' hroot => ?_⟩
    rcases List.mem_cons.mp he' with rfl | he'
    · obtain ⟨x, hx, hfields⟩ := h.mem_addKnown hinj he hroot
      exact ⟨x, hsubset hx, hfields⟩
    · exact hall e' he' hroot

/-! ### What is kept of the definitions -/

section Entries

variable {body digits : List Char} {e : Entry}

/-- The entry of a definition of an object. -/
theorem mem_addObject {name parent : List Char}
    (he : e ∈ (Mib.addObject chars p [name, body, parent, digits]).entries) :
    e ∈ p.entries ∨ e = objectEntry chars e.oid (String.ofList name) body := by
  rw [Mib.addObject] at he
  split at he
  · dsimp only at he
    split_ifs at he with hseen
    · exact .inl he
    · refine (List.mem_append.mp he).imp_right fun he => ?_
      rw [List.mem_singleton.mp he]
      rfl
  · exact .inl he

theorem seenOids_subset_addObject (p : Progress) (groups : List (List Char)) :
    p.seenOids ⊆ (Mib.addObject chars p groups).seenOids := by
  rw [Mib.addObject.eq_def]
  split
  · split
    · dsimp only
      split_ifs
      · exact fun _ h => h
      · exact List.subset_cons_self _ _
    · exact fun _ h => h
  · exact fun _ h => h

/-- The object identifier of an object is among the ones that were seen. -/
theorem Collected.mem_seenOids_addObject (h : Collected tree p) {name parent : List Char}
    (hnum : pyInt digits = some num)
    (hparent : (resolveAll tree).get (String.ofList parent) = some oid) :
    child oid num ∈ (Mib.addObject chars p [name, body, parent, digits]).seenOids := by
  rw [← h.known_eq] at hparent
  rw [Mib.addObject, hnum, hparent]
  dsimp only
  split_ifs with hseen
  · exact hseen
  · exact List.mem_cons_self

/-- The entries of names that are known have no text, and the names are in the tree. -/
theorem mem_addKnown_cases {e' : String × String} (he : e ∈ (Mib.addKnown tree p e').entries) :
    e ∈ p.entries ∨ e.oid ∉ p.seenOids ∧ (∃ v, tree.get e.name = some v) ∧
      e = ⟨e.oid, e.name, "", "", false⟩ := by
  rw [Mib.addKnown] at he
  split_ifs at he with hskip htree
  · exact .inl he
  · exact .inl he
  · refine (List.mem_append.mp he).imp_right fun he => ?_
    rw [List.mem_singleton.mp he]
    rw [Option.isNone_iff_eq_none] at htree
    exact ⟨(not_or.mp hskip).2, Option.ne_none_iff_exists'.mp htree, rfl⟩

theorem seenOids_subset_addKnown (tree : Tree) (p : Progress) (e : String × String) :
    p.seenOids ⊆ (Mib.addKnown tree p e).seenOids := by
  rw [Mib.addKnown]
  split_ifs
  · exact fun _ h => h
  · exact fun _ h => h
  · exact List.subset_cons_self _ _

theorem mem_foldl_addKnown (items : List (String × String))
    (he : e ∈ (items.foldl (Mib.addKnown tree) p).entries) :
    e ∈ p.entries ∨ e.oid ∉ p.seenOids ∧ (∃ v, tree.get e.name = some v) ∧
      e = ⟨e.oid, e.name, "", "", false⟩ := by
  induction items generalizing p with
  | nil => exact .inl he
  | cons item items ih =>
    rcases ih he with he | ⟨hseen, he⟩
    · exact mem_addKnown_cases he
    · exact .inr ⟨fun h => hseen (seenOids_subset_addKnown tree p item h), he⟩

end Entries

end Nodeglow.Mib
