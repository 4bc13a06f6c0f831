import Mathlib.Data.List.Nodup

/-!
# Tables with foreign keys

A database holds the rows of its tables; a schema names their primary and their foreign keys. A
foreign key of a child table refers to a row of a parent table if all its columns are there and
equal. What becomes of the rows that refer to a deleted row is a matter of the key: they block the
delete, are deleted with the row, or lose the reference.

A schema is restricted to the case in which nothing refers to the rows that are deleted with
another, so that the effect of a delete ends there, and in which a reference that is lost is no part
of a primary key.

## Main definitions

* `ForeignKey`, `ForeignKey.refers`, `Schema` — keys, references, and a schema.
* `Schema.delete`, `Database.update`, `Database.insert` — the statements.
* `Schema.Keyed` — the primary keys hold.

## Main results

* `Schema.delete_unreferenced` — the delete of rows that nothing refers to.
* `Schema.exists_delete`, `Schema.mem_of_delete`, `Schema.exists_of_mem_delete` — any delete: when
  it is carried out, which rows it leaves alone, and where the rows come from that it leaves.
* `Schema.Keyed.delete`, `Schema.Keyed.update`, `Schema.Keyed.insert`.
-/

namespace Nodeglow.Relational

variable {τ γ ν : Type*}

/-- A row by its columns, of which some may be NULL. -/
abbrev Record (γ ν : Type*) := γ → Option ν

/-- What becomes of a row when the row that it refers to is deleted. -/
inductive OnDelete (γ : Type*)
  | noAction
  | cascade
  | setNull (columns : List γ)
  deriving DecidableEq

/-- The pairs of columns are those of the child and of the parent. -/
structure ForeignKey (τ γ : Type*) where
  child : τ
  columns : List (γ × γ)
  parent : τ
  onDelete : OnDelete γ

namespace ForeignKey

/-- The columns that a delete of the parent clears. -/
def cleared (k : ForeignKey τ γ) : List γ :=
  match k.onDelete with
  | .setNull columns => columns
  | _ => []

variable [DecidableEq ν]

/-- The row of the child refers to the row of the parent: no column is NULL, and all agree. -/
def refers (k : ForeignKey τ γ) (r parent : Record γ ν) : Bool :=
  k.columns.all fun c => (r c.1).isSome && r c.1 == parent c.2

theorem eq_of_refers {k : ForeignKey τ γ} {r parent : Record γ ν} (h : k.refers r parent = true)
    {c : γ × γ} (hc : c ∈ k.columns) : r c.1 ≠ none ∧ r c.1 = parent c.2 := by
  have hboth := List.all_eq_true.mp h c hc
  simpa [Option.isSome_iff_ne_none] using hboth

/-- A row refers to no row that it did not refer to before some columns were cleared. -/
theorem refers_of_cleared {k : ForeignKey τ γ} {r r' parent : Record γ ν}
    (hr : ∀ c, r' c = r c ∨ r' c = none) (h : k.refers r' parent = true) :
    k.refers r parent = true := by
  refine List.all_eq_true.mpr fun c hc => ?_
  obtain ⟨hsome, heq⟩ := eq_of_refers h hc
  have hsame : r' c.1 = r c.1 := (hr c.1).resolve_right hsome
  rw [hsame] at hsome heq
  simpa [Option.isSome_iff_ne_none, heq] using hsome

end ForeignKey

/-- The keys of a database. -/
structure Schema (τ γ : Type*) where
  primaryKey : τ → List γ
  foreignKeys : List (ForeignKey τ γ)
  cascade_leaf : ∀ k ∈ foreignKeys, k.onDelete = .cascade → ∀ k' ∈ foreignKeys, k'.parent ≠ k.child
  cleared_not_key : ∀ k ∈ foreignKeys, ∀ c ∈ k.cleared, c ∉ primaryKey k.child

/-- The rows of each table. -/
abbrev Database (τ γ ν : Type*) := τ → List (Record γ ν)

namespace Database

variable [DecidableEq τ]

/-- `UPDATE x … WHERE p`. -/
def update (db : Database τ γ ν) (x : τ) (p : Record γ ν → Bool) (f : Record γ ν → Record γ ν) :
    Database τ γ ν :=
  Function.update db x ((db x).map fun r => if p r then f r else r)

/-- `INSERT INTO x`. -/
def insert (db : Database τ γ ν) (x : τ) (r : Record γ ν) : Database τ γ ν :=
  Function.update db x (r :: db x)

variable {db : Database τ γ ν} {x y : τ} {p : Record γ ν → Bool} {f : Record γ ν → Record γ ν}

theorem update_of_ne (h : y ≠ x) : db.update x p f y = db y :=
  Function.update_of_ne h _ _

theorem insert_of_ne (r : Record γ ν) (h : y ≠ x) : db.insert x r y = db y :=
  Function.update_of_ne h _ _

theorem insert_self (r : Record γ ν) : db.insert x r x = r :: db x :=
  Function.update_self ..

theorem update_self : db.update x p f x = (db x).map fun r => if p r then f r else r :=
  Function.update_self ..

/-- The rows that an update does not select are left as they are. -/
theorem mem_update {r : Record γ ν} (hr : r ∈ db y) (hp : y = x → p r = false) :
    r ∈ db.update x p f y := by
  by_cases hy : y = x
  · subst hy
    rw [update_self]
    exact List.mem_map.mpr ⟨r, hr, by simp [hp rfl]⟩
  · rwa [update_of_ne hy]

/-- A row after an update is a row before it, changed if it is selected. -/
theorem exists_of_mem_update {r' : Record γ ν} (hr : r' ∈ db.update x p f y) :
    ∃ r ∈ db y, r' = if y = x ∧ p r = true then f r else r := by
  by_cases hy : y = x
  · subst hy
    rw [update_self] at hr
    obtain ⟨r, hmem, rfl⟩ := List.mem_map.mp hr
    exact ⟨r, hmem, by simp⟩
  · rw [update_of_ne hy] at hr
    exact ⟨r', hr, by simp [hy]⟩

end Database

namespace Schema

variable (S : Schema τ γ)

/-- The columns of the primary key of a row. -/
def key (x : τ) (r : Record γ ν) : List (Option ν) := (S.primaryKey x).map r

/-- The primary keys hold. -/
structure Keyed (db : Database τ γ ν) : Prop where
  unique : ∀ x, ((db x).map (S.key x)).Nodup
  notNull : ∀ x, ∀ r ∈ db x, ∀ c ∈ S.primaryKey x, r c ≠ none

variable {S} in
theorem Keyed.eq_of_key {db : Database τ γ ν} (h : S.Keyed db) {x : τ} {r r' : Record γ ν}
    (hr : r ∈ db x) (hr' : r' ∈ db x) (hkey : S.key x r = S.key x r') : r = r' :=
  List.inj_on_of_nodup_map (h.unique x) hr hr' hkey

section Delete

variable [DecidableEq τ] [DecidableEq γ] [DecidableEq ν]

/-- The foreign keys of one table that refer to another. -/
def keysBetween (x y : τ) : List (ForeignKey τ γ) :=
  S.foreignKeys.filter fun k => k.parent = x && k.child = y

/-- The row goes with the rows that are gone from the table `x`. -/
def cascades (gone : List (Record γ ν)) (x y : τ) (r : Record γ ν) : Bool :=
  (S.keysBetween x y).any fun k => k.onDelete = .cascade && gone.any (k.refers r)

/-- What is left of a row of `y` when the rows are gone from the table `x`. -/
def clear (gone : List (Record γ ν)) (x y : τ) (r : Record γ ν) : Record γ ν := fun c =>
  if (S.keysBetween x y).any fun k => k.cleared.contains c && gone.any (k.refers r) then none
  else r c

/-- The database without the rows of `x` that the condition selects, and without what goes with
them. -/
def kept (db : Database τ γ ν) (x : τ) (p : Record γ ν → Bool) : Database τ γ ν := fun y =>
  ((db y).filter fun r => !(y = x && p r) && !S.cascades ((db x).filter p) x y r).map
    (S.clear ((db x).filter p) x y)

/-- A row that is kept refers to one that is not, and the key does not allow it. -/
def blocked (db : Database τ γ ν) (x : τ) (p : Record γ ν → Bool) : Bool :=
  S.foreignKeys.any fun k => k.parent = x && k.onDelete = .noAction &&
    (S.kept db x p k.child).any fun r => ((db x).filter p).any (k.refers r)

/-- `DELETE FROM x WHERE p`; it has no value if a foreign key refuses it. -/
def delete (db : Database τ γ ν) (x : τ) (p : Record γ ν → Bool) : Option (Database τ γ ν) :=
  if S.blocked db x p then none else some (S.kept db x p)

variable {S} {db db' : Database τ γ ν} {x y : τ} {p : Record γ ν → Bool} {r r' : Record γ ν}

omit [DecidableEq γ] in
theorem mem_keysBetween {k : ForeignKey τ γ} :
    k ∈ S.keysBetween x y ↔ k ∈ S.foreignKeys ∧ k.parent = x ∧ k.child = y := by
  simp [keysBetween]

theorem clear_apply (gone : List (Record γ ν)) (x y : τ) (r : Record γ ν) (c : γ) :
    S.clear gone x y r c = r c ∨
      (S.clear gone x y r c = none ∧
        ∃ k ∈ S.foreignKeys, k.parent = x ∧ k.child = y ∧ c ∈ k.cleared) := by
  unfold clear
  split_ifs with h
  · obtain ⟨k, hk, hc⟩ := List.any_eq_true.mp h
    obtain ⟨hmem, hparent, hchild⟩ := mem_keysBetween.mp hk
    simp only [Bool.and_eq_true, List.contains_iff_mem] at hc
    exact Or.inr ⟨rfl, k, hmem, hparent, hchild, hc.1⟩
  · exact Or.inl rfl

/-- A row that refers to none of the rows that are gone is left as it is. -/
theorem clear_of_unreferenced {gone : List (Record γ ν)}
    (h : ∀ k ∈ S.foreignKeys, k.parent = x → k.child = y → k.onDelete ≠ .noAction →
      ∀ g ∈ gone, k.refers r g = false) : S.clear gone x y r = r := by
  funext c
  refine if_neg fun hany => ?_
  obtain ⟨k, hk, hc⟩ := List.any_eq_true.mp hany
  obtain ⟨hmem, hparent, hchild⟩ := mem_keysBetween.mp hk
  simp only [Bool.and_eq_true, List.contains_iff_mem, List.any_eq_true] at hc
  obtain ⟨hcleared, g, hg, href⟩ := hc
  have haction : k.onDelete ≠ .noAction := fun hno => by simp [ForeignKey.cleared, hno] at hcleared
  simp [h k hmem hparent hchild haction g hg] at href

theorem cascades_of_unreferenced {gone : List (Record γ ν)}
    (h : ∀ k ∈ S.foreignKeys, k.parent = x → k.child = y → k.onDelete ≠ .noAction →
      ∀ g ∈ gone, k.refers r g = false) : S.cascades gone x y r = false := by
  refine List.any_eq_false.mpr fun k hk => ?_
  obtain ⟨hmem, hparent, hchild⟩ := mem_keysBetween.mp hk
  simp only [Bool.and_eq_true, decide_eq_true_eq, List.any_eq_true, not_and]
  rintro hcascade ⟨g, hg, href⟩
  have haction : k.onDelete ≠ .noAction := by simp [hcascade]
  simp [h k hmem hparent hchild haction g hg] at href

theorem kept_of_delete (h : S.delete db x p = some db') : db' = S.kept db x p := by
  unfold delete at h
  split_ifs at h
  exact (Option.some.inj h).symm

/-- A row that is not selected, and refers to no row that is, is left as it is. -/
theorem mem_of_delete (h : S.delete db x p = some db') (hr : r ∈ db y) (hp : y = x → p r = false)
    (hfree : ∀ k ∈ S.foreignKeys, k.parent = x → k.child = y → k.onDelete ≠ .noAction →
      ∀ g ∈ db x, p g = true → k.refers r g = false) : r ∈ db' y := by
  rw [kept_of_delete h]
  have hgone : ∀ k ∈ S.foreignKeys, k.parent = x → k.child = y → k.onDelete ≠ .noAction →
      ∀ g ∈ (db x).filter p, k.refers r g = false := by
    intro k hk hparent hchild haction g hg
    obtain ⟨hmem, hsel⟩ := List.mem_filter.mp hg
    exact hfree k hk hparent hchild haction g hmem hsel
  refine List.mem_map.mpr ⟨r, List.mem_filter.mpr ⟨hr, ?_⟩, clear_of_unreferenced hgone⟩
  rw [cascades_of_unreferenced hgone]
  by_cases hy : y = x
  · simp [hp hy]
  · simp [hy]

/-- A row that a delete leaves was there, was not selected, and has lost no column but those of its
references. -/
theorem exists_of_mem_delete (h : S.delete db x p = some db') (hr : r' ∈ db' y) :
    ∃ r ∈ db y, (y = x → p r = false) ∧ ∀ c, r' c = r c ∨
      (r' c = none ∧ ∃ k ∈ S.foreignKeys, k.parent = x ∧ k.child = y ∧ c ∈ k.cleared) := by
  rw [kept_of_delete h] at hr
  obtain ⟨r, hmem, rfl⟩ := List.mem_map.mp hr
  obtain ⟨hmem, hkept⟩ := List.mem_filter.mp hmem
  refine ⟨r, hmem, fun hy => ?_, clear_apply _ x y r⟩
  simp only [hy, decide_true, Bool.true_and, Bool.and_eq_true, Bool.not_eq_true'] at hkept
  exact hkept.1

/-- A delete is carried out if no row that is not selected blocks it. -/
theorem exists_delete
    (h : ∀ k ∈ S.foreignKeys, k.parent = x → k.onDelete = .noAction → ∀ r ∈ db k.child,
      (k.child = x → p r = false) → ∀ g ∈ db x, p g = true → k.refers r g = false) :
    ∃ db', S.delete db x p = some db' := by
  refine ⟨S.kept db x p, if_neg fun hblocked => ?_⟩
  obtain ⟨k, hk, hblock⟩ := List.any_eq_true.mp hblocked
  simp only [Bool.and_eq_true, decide_eq_true_eq, List.any_eq_true] at hblock
  obtain ⟨⟨hparent, haction⟩, r', hr', g, hg, href⟩ := hblock
  obtain ⟨r, hmem, rfl⟩ := List.mem_map.mp hr'
  obtain ⟨hmem, hkept⟩ := List.mem_filter.mp hmem
  obtain ⟨hg, hsel⟩ := List.mem_filter.mp hg
  have hfree : k.child = x → p r = false := by
    intro hchild
    simp only [hchild, decide_true, Bool.true_and, Bool.and_eq_true, Bool.not_eq_true'] at hkept
    exact hkept.1
  have hrefers : k.refers r g = true :=
    ForeignKey.refers_of_cleared (fun c => (clear_apply _ x k.child r c).imp id And.left) href
  simp [h k hk hparent haction r hmem hfree g hg hsel] at hrefers

/-- **The delete of rows that nothing refers to** deletes these rows. -/
theorem delete_unreferenced
    (h : ∀ k ∈ S.foreignKeys, k.parent = x → ∀ r ∈ db k.child, ∀ g ∈ db x, p g = true →
      k.refers r g = false) :
    S.delete db x p = some (Function.update db x ((db x).filter fun r => !p r)) := by
  obtain ⟨db', hdb'⟩ : ∃ db', S.delete db x p = some db' :=
    exists_delete fun k hk hparent _ r hr _ g hg hsel => h k hk hparent r hr g hg hsel
  rw [hdb', kept_of_delete hdb']
  congr 1
  funext y
  have hgone : ∀ r ∈ db y, ∀ k ∈ S.foreignKeys, k.parent = x → k.child = y →
      k.onDelete ≠ .noAction → ∀ g ∈ (db x).filter p, k.refers r g = false := by
    rintro r hr k hk hparent rfl - g hg
    obtain ⟨hmem, hsel⟩ := List.mem_filter.mp hg
    exact h k hk hparent r hr g hmem hsel
  have hclear : S.kept db x p y = (db y).filter fun r => !(y = x && p r) := by
    unfold kept
    have hfilter : ((db y).filter fun r => !(y = x && p r) && !S.cascades ((db x).filter p) x y r) =
        (db y).filter fun r => !(y = x && p r) :=
      List.filter_congr fun r hr => by rw [cascades_of_unreferenced (hgone r hr)]; simp
    rw [hfilter]
    refine (List.map_congr_left fun r hr => ?_).trans (List.map_id _)
    exact clear_of_unreferenced (hgone r (List.mem_of_mem_filter hr))
  rw [hclear]
  by_cases hy : y = x
  · subst hy
    simp
  · simp [hy]

namespace Keyed

theorem delete (h : S.Keyed db) (hdb' : S.delete db x p = some db') : S.Keyed db' := by
  have hkey (y : τ) (r : Record γ ν) (c : γ) (hc : c ∈ S.primaryKey y) :
      S.clear ((db x).filter p) x y r c = r c := by
    refine (clear_apply _ x y r c).resolve_right ?_
    rintro ⟨-, k, hk, -, rfl, hcleared⟩
    exact S.cleared_not_key k hk c hcleared hc
  rw [kept_of_delete hdb']
  constructor
  · intro y
    have hsame : (S.kept db x p y).map (S.key y) =
        ((db y).filter fun r => !(y = x && p r) && !S.cascades ((db x).filter p) x y r).map
          (S.key y) := by
      rw [kept, List.map_map]
      exact List.map_congr_left fun r _ => List.map_congr_left fun c hc => hkey y r c hc
    rw [hsame]
    exact (h.unique y).sublist (List.filter_sublist.map _)
  · intro y r' hr' c hc
    obtain ⟨r, hr, rfl⟩ := List.mem_map.mp hr'
    rw [hkey y r c hc]
    exact h.notNull y r (List.mem_of_mem_filter hr) c hc

omit [DecidableEq γ] [DecidableEq ν] in
theorem update (h : S.Keyed db) {f : Record γ ν → Record γ ν}
    (hf : ∀ r, ∀ c ∈ S.primaryKey x, f r c = r c) : S.Keyed (db.update x p f) := by
  have hsame (y : τ) : (db.update x p f y).map (S.key y) = (db y).map (S.key y) := by
    by_cases hy : y = x
    · subst hy
      rw [Database.update_self, List.map_map]
      refine List.map_congr_left fun r _ => List.map_congr_left fun c hc => ?_
      dsimp only
      split_ifs
      · exact hf r c hc
      · rfl
    · rw [Database.update_of_ne hy]
  refine ⟨fun y => by rw [hsame]; exact h.unique y, fun y r' hr' c hc => ?_⟩
  obtain ⟨r, hr, rfl⟩ := Database.exists_of_mem_update hr'
  split_ifs with hsel
  · rw [hf r c (hsel.1 ▸ hc)]
    exact h.notNull y r hr c hc
  · exact h.notNull y r hr c hc

omit [DecidableEq γ] [DecidableEq ν] in
theorem insert (h : S.Keyed db) (hnew : ∀ r' ∈ db x, S.key x r' ≠ S.key x r)
    (hnull : ∀ c ∈ S.primaryKey x, r c ≠ none) : S.Keyed (db.insert x r) := by
  constructor
  · intro y
    by_cases hy : y = x
    · subst hy
      rw [Database.insert_self, List.map_cons, List.nodup_cons]
      refine ⟨fun hmem => ?_, h.unique y⟩
      obtain ⟨r', hr', heq⟩ := List.mem_map.mp hmem
      exact hnew r' hr' heq
    · rw [Database.insert_of_ne r hy]
      exact h.unique y
  · intro y r' hr' c hc
    by_cases hy : y = x
    · subst hy
      rw [Database.insert_self] at hr'
      rcases List.mem_cons.mp hr' with rfl | hr'
      · exact hnull c hc
      · exact h.notNull y r' hr' c hc
    · rw [Database.insert_of_ne r hy] at hr'
      exact h.notNull y r' hr' c hc

end Keyed

end Delete

end Schema

end Nodeglow.Relational
