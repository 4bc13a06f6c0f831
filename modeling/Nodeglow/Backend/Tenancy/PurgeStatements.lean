import Mathlib.Data.List.Perm.Subperm
import Nodeglow.Backend.Tenancy.Purge

/-!
# What the statements of the purge do

Each statement of the purge is a statement about rows of one tenant. Most of them touch nothing else
(`Confined`). With a user go the rows that refer to him, and those are kept from being rows of
another tenant by what has been read about him; only his preferences are not (`KeepsOthers`).

The foreign keys do not refuse a delete, because a table is emptied only after those that refer to
it, and after its self references are cleared.

## Main results

* `confined_destroyTenantKey`, `confined_saveShred`, `confined_clearReferences`,
  `cleared_clearReferences`.
* `delete_rows`, `IsBatch.ofTenant`, `IsBatch.valueIn_of_lt` — the statements that delete rows, and
  the last batch.
* `exists_purgeIdentities`, `exists_purgeTenantRow` — the two transactions at the end.

Source: `ee/backend/nodeglow_ee/tenancy/purge.py`, lines 62–195;
`backend/services/tenant_keys.py`, lines 645–683.
-/

namespace Nodeglow.Tenancy.Purge

open Relational

variable {t : ℤ} {db db' db'' : Db} {x : Table} {p : Record Column Value → Bool}

/-- The table has no row of the tenant. -/
def NoRows (t : ℤ) (db : Db) (x : Table) : Prop := ∀ r ∈ db x, ofTenant t r = false

/-- A delete gives the tenant no row. -/
theorem NoRows.delete {y : Table} (hdelete : schema.delete db y p = some db')
    (hx : NoRows t db x) : NoRows t db' x := by
  intro r' hr'
  obtain ⟨r, hr, -, hsame⟩ := Schema.exists_of_mem_delete hdelete hr'
  rcases hsame .tenantId with heq | ⟨hnull, -⟩
  · rw [ofTenant, heq]
    exact hx r hr
  · simp [ofTenant, hnull]

/-- The tenant's rows do not have the reference. -/
def Cleared (t : ℤ) (db : Db) (x : Table) (c : Column) : Prop :=
  ∀ r ∈ db x, ofTenant t r = true → r c = none

/-- No row of another tenant is deleted, but for the preferences of users who are; no membership,
nor any other tenant; and a user only who is in no other tenant, and is neither an operator nor a
member of a provider. -/
structure KeepsOthers (t : ℤ) (db db' : Db) : Prop where
  rows : ∀ x ∈ tenantTables, ∀ r ∈ db x, ofTenant t r = false →
    r ∈ db' x ∨ (x = .userPreferences ∧
      ∃ u ∈ db .users, u ∉ db' .users ∧ r .userId = u .id)
  memberships : ∀ r ∈ db .tenantMemberships, ofTenant t r = false →
    ∃ r' ∈ db' .tenantMemberships, ∀ c, c ≠ .createdBy → r' c = r c
  tenants : ∀ r ∈ db .tenants, r .id ≠ some (.int t) → r ∈ db' .tenants
  users : ∀ u ∈ db .users, u ∉ db' .users →
    (∀ r ∈ db .tenantMemberships, r .userId = u .id → ofTenant t r = true) ∧
      (∀ r ∈ db .providerMemberships, r .userId ≠ u .id) ∧ u .isOperator = some (.bool false)

/-- Only rows of the tenant are touched, and no users, memberships or sessions. -/
structure Confined (t : ℤ) (db db' : Db) : Prop where
  rows : ∀ x ∈ tenantTables, ∀ r ∈ db x, ofTenant t r = false → r ∈ db' x
  tenants : ∀ r ∈ db .tenants, r .id ≠ some (.int t) → r ∈ db' .tenants
  rest : ∀ x ∉ tenantTables, x ≠ .tenants → db' x = db x

namespace Confined

theorem refl (t : ℤ) (db : Db) : Confined t db db :=
  ⟨fun _ _ _ hr _ => hr, fun _ hr _ => hr, fun _ _ _ => rfl⟩

theorem trans (h : Confined t db db') (h' : Confined t db' db'') : Confined t db db'' where
  rows x hx r hr hother := h'.rows x hx r (h.rows x hx r hr hother) hother
  tenants r hr hother := h'.tenants r (h.tenants r hr hother) hother
  rest x hx hne := (h'.rest x hx hne).trans (h.rest x hx hne)

theorem keepsOthers (h : Confined t db db') : KeepsOthers t db db' where
  rows x hx r hr hother := Or.inl (h.rows x hx r hr hother)
  memberships r hr _ := ⟨r, by rwa [h.rest .tenantMemberships (by decide) (by decide)],
    fun _ _ => rfl⟩
  tenants := h.tenants
  users u hu hgone := absurd (h.rest .users (by decide) (by decide) ▸ hu) hgone

/-- A statement on one table of the tenants that leaves the rows of others. -/
theorem of_eq_of_ne (hx : x ∈ tenantTables) (hne : ∀ y, y ≠ x → db' y = db y)
    (hother : ∀ r ∈ db x, ofTenant t r = false → r ∈ db' x) : Confined t db db' := by
  have hfixed (y : Table) (hy : y ∉ tenantTables) : db' y = db y := hne y fun heq => hy (heq ▸ hx)
  refine ⟨fun y hy r hr ht => ?_, fun r hr _ => ?_, fun y hy _ => hfixed y hy⟩
  · by_cases hyx : y = x
    · subst hyx
      exact hother r hr ht
    · rwa [hne y hyx]
  · rwa [hfixed .tenants (by decide)]

theorem update {f : Record Column Value → Record Column Value} (hx : x ∈ tenantTables)
    (hp : ∀ r, p r = true → ofTenant t r = true) : Confined t db (db.update x p f) := by
  refine of_eq_of_ne hx (fun y hy => Database.update_of_ne hy) fun r hr hother => ?_
  refine Database.mem_update hr fun _ => ?_
  by_contra hsel
  simp [hp r (by simpa using hsel)] at hother

theorem insert (r : Record Column Value) (hx : x ∈ tenantTables) :
    Confined t db (db.insert x r) := by
  refine of_eq_of_ne hx (fun y hy => Database.insert_of_ne r hy) fun r' hr' _ => ?_
  rw [Database.insert_self]
  exact List.mem_cons_of_mem _ hr'

end Confined

/-! ### Keys, and what is not a table of the tenants -/

theorem confined_destroyTenantKey (now : ℚ) (legacy : Bool) (keyId : String) :
    Confined t db (destroyTenantKey t now legacy keyId db) := by
  have hkeys : Table.tenantKeys ∈ tenantTables := by decide
  have hmoved : Confined t db (reencryptLegacy t legacy keyId db) := by
    unfold reencryptLegacy
    split_ifs
    · exact .insert _ hkeys
    · exact .refl t db
  have hdestroyed := hmoved.trans (.update hkeys (p := liveKey t)
    (f := fun r => Function.update r .destroyedAt (some (.time now))) fun r hsel => by
      simpa using (Bool.and_eq_true_iff.mp hsel).1)
  unfold destroyTenantKey
  dsimp only
  split_ifs
  · exact hdestroyed
  · exact hdestroyed.trans (.insert _ hkeys)

theorem confined_saveShred : Confined t db (saveShred t db) := by
  have hne (y : Table) (hy : y ≠ .tenants) : saveShred t db y = db y := Database.update_of_ne hy
  refine ⟨fun y hy r hr _ => ?_, fun r hr hother => ?_, fun y _ hy => hne y hy⟩
  · rwa [hne y (by rintro rfl; exact absurd hy (by decide))]
  · exact Database.mem_update hr fun _ => by simpa using hother

theorem keyed_saveShred (h : schema.Keyed db) : schema.Keyed (saveShred t db) :=
  h.update fun r c hc => by
    obtain rfl : c = .id := by simpa [schema, primaryKey] using hc
    rfl

theorem keyed_insert_keyRow (h : schema.Keyed db) {keyId : String} (destroyedAt : Option ℚ)
    (hnew : ∀ r ∈ db .tenantKeys, r .keyId ≠ some (.text keyId)) :
    schema.Keyed (db.insert .tenantKeys (keyRow t keyId destroyedAt)) := by
  refine h.insert (fun r hr heq => hnew r hr ?_) fun c hc => ?_
  · have hcolumns : r .tenantId = some (.int t) ∧ r .keyId = some (.text keyId) := by
      simpa [Schema.key, schema, primaryKey, keyRow] using heq
    exact hcolumns.2
  · obtain rfl | rfl : c = .tenantId ∨ c = .keyId := by simpa [schema, primaryKey] using hc
    · simp [keyRow]
    · simp [keyRow]

theorem keyed_destroyTenantKey (h : schema.Keyed db) (now : ℚ) (legacy : Bool) {keyId : String}
    (hnew : ∀ r ∈ db .tenantKeys, r .keyId ≠ some (.text keyId)) :
    schema.Keyed (destroyTenantKey t now legacy keyId db) := by
  have hmoved : schema.Keyed (reencryptLegacy t legacy keyId db) := by
    unfold reencryptLegacy
    split_ifs
    · exact keyed_insert_keyRow h none hnew
    · exact h
  have hdestroyed : schema.Keyed ((reencryptLegacy t legacy keyId db).update .tenantKeys (liveKey t)
      fun r => Function.update r .destroyedAt (some (.time now))) := by
    refine hmoved.update fun r c hc => Function.update_of_ne ?_ _ _
    rintro rfl
    simp [schema, primaryKey] at hc
  unfold destroyTenantKey
  dsimp only
  split_ifs with hlive
  · exact hdestroyed
  · refine keyed_insert_keyRow hdestroyed _ fun r' hr' => ?_
    obtain ⟨r, hr, rfl⟩ := Database.exists_of_mem_update hr'
    -- A key that was created here would be one to destroy.
    have hsame : reencryptLegacy t legacy keyId db = db := by
      refine if_neg fun hcreate => hlive ?_
      simp [reencryptLegacy, hcreate, Database.insert_self, liveKey, keyRow, ofTenant]
    rw [hsame] at hr
    split_ifs
    · simpa using hnew r hr
    · exact hnew r hr

/-! ### Self references -/

theorem selfReference_not_key :
    ∀ x ∈ tenantTables, ∀ c ∈ selfReferences x, c ∉ schema.primaryKey x := by
  decide +kernel

theorem ofTenant_update {c : Column} (hc : c ≠ .tenantId) (r : Record Column Value)
    (v : Option Value) : ofTenant t (Function.update r c v) = ofTenant t r := by
  rw [ofTenant, Function.update_of_ne hc.symm, ofTenant]

theorem cleared_clearReference (c : Table × Column) :
    Cleared t (clearReference t db c) c.1 c.2 := by
  intro r' hr' ht
  obtain ⟨r, -, rfl⟩ := Database.exists_of_mem_update hr'
  split_ifs at ht ⊢ with hsel
  · exact Function.update_self ..
  · simp only [true_and, Bool.and_eq_true, not_and, Bool.not_eq_true, Option.isSome_eq_false_iff,
      Option.isNone_iff_eq_none] at hsel
    exact hsel ht

theorem Cleared.clearReference {c : Table × Column} {d : Column} (h : Cleared t db x d)
    (hc : c.2 ≠ .tenantId) : Cleared t (clearReference t db c) x d := by
  intro r' hr' ht
  obtain ⟨r, hr, rfl⟩ := Database.exists_of_mem_update hr'
  split_ifs at ht ⊢
  · rw [ofTenant_update hc] at ht
    by_cases hd : d = c.2
    · rw [hd]
      exact Function.update_self ..
    · rw [Function.update_of_ne hd]
      exact h r hr ht
  · exact h r hr ht

section ClearReferences

variable {refs : List (Table × Column)}

theorem confined_foldl_clearReference (h : ∀ c ∈ refs, c.1 ∈ tenantTables) :
    Confined t db (refs.foldl (clearReference t) db) := by
  induction refs generalizing db with
  | nil => exact .refl t db
  | cons c refs ih =>
    obtain ⟨hc, hrefs⟩ := List.forall_mem_cons.mp h
    have hstep : Confined t db (clearReference t db c) :=
      .update hc fun r hsel => (Bool.and_eq_true_iff.mp hsel).1
    exact hstep.trans (ih hrefs)

theorem keyed_foldl_clearReference (hdb : schema.Keyed db)
    (h : ∀ c ∈ refs, c.2 ∉ schema.primaryKey c.1) :
    schema.Keyed (refs.foldl (clearReference t) db) := by
  induction refs generalizing db with
  | nil => exact hdb
  | cons c refs ih =>
    obtain ⟨hc, hrefs⟩ := List.forall_mem_cons.mp h
    refine ih (hdb.update fun r d hd => Function.update_of_ne ?_ _ _) hrefs
    rintro rfl
    exact hc hd

theorem cleared_foldl_of_cleared {d : Column} (hdb : Cleared t db x d)
    (h : ∀ c ∈ refs, c.2 ≠ .tenantId) : Cleared t (refs.foldl (clearReference t) db) x d := by
  induction refs generalizing db with
  | nil => exact hdb
  | cons c refs ih =>
    obtain ⟨hc, hrefs⟩ := List.forall_mem_cons.mp h
    exact ih (hdb.clearReference hc) hrefs

theorem cleared_foldl {c : Table × Column} (hc : c ∈ refs) (h : ∀ c ∈ refs, c.2 ≠ .tenantId) :
    Cleared t (refs.foldl (clearReference t) db) c.1 c.2 := by
  induction refs generalizing db with
  | nil => cases hc
  | cons c' refs ih =>
    obtain ⟨-, hrefs⟩ := List.forall_mem_cons.mp h
    rcases List.mem_cons.mp hc with rfl | hc
    · rw [List.foldl_cons]
      exact cleared_foldl_of_cleared (cleared_clearReference c) hrefs
    · exact ih hc hrefs

end ClearReferences

section PurgeOrder

variable (sortedTables : List Table)

theorem mem_references {c : Table × Column}
    (h : c ∈ (purgeOrder sortedTables).flatMap fun x => (selfReferences x).map (x, ·)) :
    c.1 ∈ tenantTables ∧ c.2 ∈ selfReferences c.1 := by
  obtain ⟨x, hx, hc⟩ := List.mem_flatMap.mp h
  obtain ⟨d, hd, rfl⟩ := List.mem_map.mp hc
  have hboth := List.mem_filter.mp hx
  exact ⟨by simpa using hboth.2, hd⟩

theorem confined_clearReferences : Confined t db (clearReferences sortedTables t db) :=
  confined_foldl_clearReference fun _ hc => (mem_references sortedTables hc).1

theorem keyed_clearReferences (h : schema.Keyed db) :
    schema.Keyed (clearReferences sortedTables t db) := by
  refine keyed_foldl_clearReference h fun c hc => ?_
  obtain ⟨hx, hself⟩ := mem_references sortedTables hc
  exact selfReference_not_key c.1 hx c.2 hself

theorem cleared_clearReferences (hx : x ∈ purgeOrder sortedTables) {c : Column}
    (hc : c ∈ selfReferences x) : Cleared t (clearReferences sortedTables t db) x c :=
  cleared_foldl (c := (x, c))
    (List.mem_flatMap.mpr ⟨x, hx, List.mem_map.mpr ⟨c, hc, rfl⟩⟩)
    fun _ hc => ne_tenantId_of_mem_selfReferences (mem_references sortedTables hc).2

end PurgeOrder

/-! ### Batches -/

/-- **A statement that deletes rows of the tenant** from one of its tables does so, and no foreign
key refuses it, if the table has no self references and the tables that refer to it are empty. -/
theorem delete_rows (hx : x ∈ tenantTables) (hself : ∀ c ∈ selfReferences x, Cleared t db x c)
    (hchildren : ∀ k ∈ schema.foreignKeys, k.parent = x → k.child ≠ x → NoRows t db k.child)
    (hp : ∀ r ∈ db x, p r = true → ofTenant t r = true) :
    schema.delete db x p = some (Function.update db x ((db x).filter fun r => !p r)) := by
  refine Schema.delete_unreferenced fun k hk hparent r hr g hg hsel => ?_
  by_contra hrefers
  rw [Bool.not_eq_false] at hrefers
  obtain ⟨-, htenant, hownself⟩ := foreignKey_of_tenantTable k hk (hparent ▸ hx)
  have hsame := (ForeignKey.eq_of_refers hrefers htenant).2
  have hg : ofTenant t g = true := hp g hg hsel
  have hrt : ofTenant t r = true := by
    simpa [ofTenant, hsame] using hg
  by_cases hchild : k.child = x
  · obtain ⟨c, hc, hself'⟩ := hownself (hchild.trans hparent.symm)
    rw [hchild] at hself' hr
    exact (ForeignKey.eq_of_refers hrefers hc).1 (hself c.1 hself' r hr hrt)
  · have hnone := hchildren k hk hparent hchild r hr
    rw [hrt] at hnone
    cases hnone

theorem confined_filter (hx : x ∈ tenantTables)
    (hp : ∀ r ∈ db x, p r = true → ofTenant t r = true) :
    Confined t db (Function.update db x ((db x).filter fun r => !p r)) := by
  refine .of_eq_of_ne hx (fun y hy => Function.update_of_ne hy _ _) fun r hr hother => ?_
  rw [Function.update_self]
  refine List.mem_filter.mpr ⟨hr, ?_⟩
  by_contra hsel
  simp [hp r hr (by simpa using hsel)] at hother

theorem mem_tenantIds {v : Value} :
    v ∈ tenantIds t x db ↔ ∃ r ∈ db x, ofTenant t r = true ∧ r .id = some v := by
  simp [tenantIds, and_assoc]

/-- The rows of a batch are rows of the tenant. -/
theorem IsBatch.ofTenant {ids : List Value} (h : IsBatch t x db ids) (hdb : schema.Keyed db)
    (hkey : schema.primaryKey x = [.id]) {r : Record Column Value} (hr : r ∈ db x)
    (hsel : valueIn .id ids r = true) : ofTenant t r = true := by
  obtain ⟨v, hv, hid⟩ : ∃ v ∈ ids, some v = r .id := by simpa [valueIn] using hsel
  obtain ⟨r', hr', ht, hid'⟩ := mem_tenantIds.mp (h.2.1 hv)
  have hsame : r = r' := hdb.eq_of_key hr hr' (by simp [Schema.key, hkey, ← hid, hid'])
  rw [hsame]
  exact ht

/-- A batch that is not full leaves no row of the tenant. -/
theorem IsBatch.valueIn_of_lt {ids : List Value} (h : IsBatch t x db ids) (hdb : schema.Keyed db)
    (hkey : schema.primaryKey x = [.id])
    (hcount : ((db x).filter (valueIn .id ids)).length < batchSize) {r : Record Column Value}
    (hr : r ∈ db x) (ht : Purge.ofTenant t r = true) : valueIn .id ids r = true := by
  obtain ⟨hnodup, hsub, hlength⟩ := h
  -- Each id of the batch is that of a row which the statement deletes.
  have hfound : ids ⊆ ((db x).filter (valueIn .id ids)).filterMap (· .id) := by
    intro v hv
    obtain ⟨r', hr', -, hid⟩ := mem_tenantIds.mp (hsub hv)
    exact List.mem_filterMap.mpr ⟨r', List.mem_filter.mpr ⟨hr', by simp [valueIn, hid, hv]⟩, hid⟩
  have hle : ids.length ≤ ((db x).filter (valueIn .id ids)).length :=
    (List.subperm_of_subset hnodup hfound).length_le.trans (List.length_filterMap_le _ _)
  have hall : (tenantIds t x db).length ≤ ids.length := by omega
  have hperm : ids.Perm (tenantIds t x db) := (List.subperm_of_subset hnodup hsub).perm_of_length_le hall
  obtain ⟨v, hv⟩ := Option.ne_none_iff_exists'.mp (hdb.notNull x r hr .id (by simp [hkey]))
  have hmem : v ∈ ids := hperm.mem_iff.mpr (mem_tenantIds.mpr ⟨r, hr, ht, hv⟩)
  simp [valueIn, hv, hmem]

/-! ### Users -/

section Users

variable {orphans : List Value}

theorem valueIn_congr {c d : Column} {r g : Record Column Value} (h : r c = g d) :
    valueIn c orphans r = valueIn d orphans g := by
  simp [valueIn, h]

/-- What is deleted of the users is what the statement selects. -/
theorem valueIn_of_deleted_user (h : schema.delete db .users (valueIn .id orphans) = some db')
    {u : Record Column Value} (hu : u ∈ db .users) (hgone : u ∉ db' .users) :
    valueIn .id orphans u = true := by
  by_contra hsel
  refine hgone (Schema.mem_of_delete h hu (fun _ => by simpa using hsel) ?_)
  intro k hk _ hchild
  exact absurd hchild (foreignKey_parent k hk).2.2

theorem deleted_user_of_valueIn (h : schema.delete db .users (valueIn .id orphans) = some db')
    {u : Record Column Value} (hsel : valueIn .id orphans u = true) : u ∉ db' .users := by
  intro hu
  obtain ⟨r, -, hr, hsame⟩ := Schema.exists_of_mem_delete h hu
  have heq : u = r := by
    funext c
    refine (hsame c).resolve_right ?_
    rintro ⟨-, k, hk, -, hchild, -⟩
    exact (foreignKey_parent k hk).2.2 hchild
  rw [heq, hr rfl] at hsel
  cases hsel

/-- A row that refers to a deleted user through a key names him in one of two columns. -/
theorem valueIn_of_refers {k : ForeignKey Table Column} (hk : k ∈ schema.foreignKeys)
    (hparent : k.parent = .users) {r g : Record Column Value}
    (hg : valueIn .id orphans g = true) (hrefers : k.refers r g = true) :
    (valueIn .userId orphans r = true ∧
        ((k.child = .sessions ∧ k.onDelete = .noAction) ∨
          (k.child ∈ [.tenantMemberships, .providerMemberships, .userPreferences] ∧
            k.onDelete = .cascade))) ∨
      (valueIn .createdBy orphans r = true ∧ k.child = .tenantMemberships) := by
  rcases foreignKey_to_users k hk hparent with ⟨hcolumns, hchild⟩ | ⟨hcolumns, hchild, -⟩
  · have hsame := (ForeignKey.eq_of_refers hrefers (c := (.userId, .id)) (by simp [hcolumns])).2
    exact Or.inl ⟨(valueIn_congr hsame).trans hg, hchild⟩
  · have hsame := (ForeignKey.eq_of_refers hrefers (c := (.createdBy, .id)) (by simp [hcolumns])).2
    exact Or.inr ⟨(valueIn_congr hsame).trans hg, hchild⟩

/-- The delete of users without sessions is carried out. -/
theorem exists_delete_users (hsessions : ∀ r ∈ db .sessions, valueIn .userId orphans r = false) :
    ∃ db', schema.delete db .users (valueIn .id orphans) = some db' := by
  refine Schema.exists_delete fun k hk hparent haction r hr _ g _ hg => ?_
  by_contra hrefers
  rw [Bool.not_eq_false] at hrefers
  rcases foreignKey_to_users k hk hparent with ⟨-, ⟨hchild, -⟩ | ⟨-, hcascade⟩⟩ | ⟨-, -, hnull⟩
  · rcases valueIn_of_refers hk hparent hg hrefers with ⟨hsel, -⟩ | ⟨-, hmemberships⟩
    · rw [hsessions r (hchild ▸ hr)] at hsel
      cases hsel
    · simp [hchild] at hmemberships
  · simp [hcascade] at haction
  · simp [hnull] at haction

/-- **The delete of users without memberships** leaves every row of every other table, but for the
preferences of these users. -/
theorem mem_of_delete_users (h : schema.delete db .users (valueIn .id orphans) = some db')
    (hmemberships : ∀ r ∈ db .tenantMemberships,
      valueIn .userId orphans r = false ∧ valueIn .createdBy orphans r = false)
    (hproviders : ∀ r ∈ db .providerMemberships, valueIn .userId orphans r = false)
    (hx : x ≠ .users) {r : Record Column Value} (hr : r ∈ db x) :
    r ∈ db' x ∨ (x = .userPreferences ∧ ∃ u ∈ db .users, u ∉ db' .users ∧ r .userId = u .id) := by
  by_cases hpref : x = .userPreferences ∧
      ∃ u ∈ db .users, valueIn .id orphans u = true ∧ r .userId = u .id
  · obtain ⟨hx, u, hu, hsel, hsame⟩ := hpref
    exact Or.inr ⟨hx, u, hu, deleted_user_of_valueIn h hsel, hsame⟩
  refine Or.inl (Schema.mem_of_delete h hr (fun heq => absurd heq hx) ?_)
  intro k hk hparent hchild haction g hg hsel
  by_contra hrefers
  rw [Bool.not_eq_false] at hrefers
  rcases valueIn_of_refers hk hparent hsel hrefers with ⟨hval, hcase⟩ | ⟨hval, hmember⟩
  · rcases hcase with ⟨-, hno⟩ | ⟨hmem, -⟩
    · exact haction hno
    · simp only [List.mem_cons, List.not_mem_nil, or_false] at hmem
      rcases hmem with hmem | hmem | hmem
      · rw [hchild] at hmem
        subst hmem
        rw [(hmemberships r hr).1] at hval
        cases hval
      · rw [hchild] at hmem
        subst hmem
        rw [hproviders r hr] at hval
        cases hval
      · have hcolumns : k.columns = [(.userId, .id)] := by
          rcases foreignKey_to_users k hk hparent with ⟨hcolumns, -⟩ | ⟨-, hother, -⟩
          · exact hcolumns
          · simp [hmem] at hother
        have hsame := (ForeignKey.eq_of_refers hrefers (c := (.userId, .id)) (by simp [hcolumns])).2
        exact hpref ⟨hchild.symm.trans hmem, g, hg, hsel, hsame⟩
  · rw [hchild] at hmember
    subst hmember
    rw [(hmemberships r hr).2] at hval
    cases hval

/-- Of the memberships those of other tenants are left, with the same users; beside them only
sessions have changed. -/
structure MembersGone (t : ℤ) (db db' : Db) : Prop where
  keyed : schema.Keyed db'
  rest : ∀ x, x ≠ .tenantMemberships → x ≠ .sessions → db' x = db x
  others : ∀ r ∈ db .tenantMemberships, ofTenant t r = false →
    ∃ r' ∈ db' .tenantMemberships, ∀ c, c ≠ .createdBy → r' c = r c
  source : ∀ r' ∈ db' .tenantMemberships, ofTenant t r' = false ∧
    ∃ r ∈ db .tenantMemberships, ∀ c, c ≠ .createdBy → r' c = r c

theorem delete_tenantMemberships :
    schema.delete db .tenantMemberships p = some (Function.update db .tenantMemberships
      ((db .tenantMemberships).filter fun r => !p r)) :=
  Schema.delete_unreferenced fun k hk hparent => absurd hparent (foreignKey_parent k hk).1

theorem delete_sessions :
    schema.delete db .sessions p = some (Function.update db .sessions
      ((db .sessions).filter fun r => !p r)) :=
  Schema.delete_unreferenced fun k hk hparent => absurd hparent (foreignKey_parent k hk).2.1

theorem membersGone_delete (h : schema.Keyed db) :
    MembersGone t db (Function.update db .tenantMemberships
      ((db .tenantMemberships).filter fun r => !ofTenant t r)) where
  keyed := h.delete delete_tenantMemberships
  rest x hx _ := Function.update_of_ne hx _ _
  others r hr hother := by
    refine ⟨r, ?_, fun _ _ => rfl⟩
    rw [Function.update_self]
    exact List.mem_filter.mpr ⟨hr, by simp [hother]⟩
  source r hr := by
    rw [Function.update_self] at hr
    obtain ⟨hmem, hother⟩ := List.mem_filter.mp hr
    exact ⟨by simpa using hother, r, hmem, fun _ _ => rfl⟩

namespace MembersGone

theorem sessions (h : MembersGone t db db') (hkeyed : schema.Keyed db'')
    (hrest : ∀ x, x ≠ .sessions → db'' x = db' x) : MembersGone t db db'' where
  keyed := hkeyed
  rest x hx hs := (hrest x hs).trans (h.rest x hx hs)
  others := by
    rw [hrest .tenantMemberships (by decide)]
    exact h.others
  source := by
    rw [hrest .tenantMemberships (by decide)]
    exact h.source

theorem clearCreator (h : MembersGone t db db') (p : Record Column Value → Bool) :
    MembersGone t db (db'.update .tenantMemberships p
      fun r => Function.update r .createdBy none) where
  keyed := h.keyed.update fun r c hc => Function.update_of_ne (by
    rintro rfl
    simp [schema, primaryKey] at hc) _ _
  rest x hx hs := (Database.update_of_ne hx).trans (h.rest x hx hs)
  others r hr hother := by
    obtain ⟨r', hr', hsame⟩ := h.others r hr hother
    rw [Database.update_self]
    refine ⟨_, List.mem_map_of_mem hr', fun c hc => ?_⟩
    split_ifs
    · exact (Function.update_of_ne hc _ _).trans (hsame c hc)
    · exact hsame c hc
  source r' hr' := by
    obtain ⟨r, hr, rfl⟩ := Database.exists_of_mem_update hr'
    obtain ⟨hother, r₀, hr₀, hsame⟩ := h.source r hr
    split_ifs
    · rw [ofTenant_update (by decide)]
      exact ⟨hother, r₀, hr₀, fun c hc => (Function.update_of_ne hc _ _).trans (hsame c hc)⟩
    · exact ⟨hother, r₀, hr₀, hsame⟩

theorem keepsOthers (h : MembersGone t db db') : KeepsOthers t db db' where
  rows x hx r hr _ := by
    refine Or.inl ?_
    rwa [h.rest x (by rintro rfl; exact absurd hx (by decide))
      (by rintro rfl; exact absurd hx (by decide))]
  memberships := h.others
  tenants r hr _ := by rwa [h.rest .tenants (by decide) (by decide)]
  users u hu hgone := absurd (h.rest .users (by decide) (by decide) ▸ hu) hgone

end MembersGone

/-- What the answers say of a user who is deleted. -/
theorem not_keeps_iff {u : Value} :
    (∀ q ∈ questions [u], q.keeps t db = false) ↔
      (∀ r ∈ db .tenantMemberships, ofTenant t r = false → r .userId ≠ some u) ∧
        (∀ r ∈ db .providerMemberships, r .userId ≠ some u) ∧
          ∃ r ∈ db .users, r .id = some u ∧ r .isOperator = some (.bool false) := by
  simp [questions, Question.keeps]

/-- A statement on sessions. -/
theorem MembersGone.update_sessions (h : MembersGone t db db') :
    MembersGone t db (db'.update .sessions (fun r => r .activeTenantId = some (.int t))
      fun r => Function.update r .activeTenantId none) := by
  refine h.sessions (h.keyed.update fun r c hc => Function.update_of_ne ?_ _ _) fun x hx =>
    Database.update_of_ne hx
  rintro rfl
  simp [schema, primaryKey] at hc

theorem MembersGone.delete_sessions (h : MembersGone t db db') (p : Record Column Value → Bool) :
    MembersGone t db (Function.update db' .sessions ((db' .sessions).filter fun r => !p r)) :=
  h.sessions (h.keyed.delete Purge.delete_sessions) fun _ hx => Function.update_of_ne hx _ _

/-- The delete of the users, after the statements on their memberships and sessions. -/
theorem MembersGone.delete_users (h : MembersGone t db db')
    (horphans : ∀ u ∈ orphans, ∀ q ∈ questions [u], q.keeps t db = false)
    (hkeyed : schema.Keyed db)
    (hsessions : ∀ r ∈ db' .sessions, valueIn .userId orphans r = false)
    (hcreators : ∀ r ∈ db' .tenantMemberships, valueIn .createdBy orphans r = false) :
    ∃ db'', schema.delete db' .users (valueIn .id orphans) = some db'' ∧ schema.Keyed db'' ∧
      KeepsOthers t db db'' ∧ (∀ x ∈ tenantTables, NoRows t db x → NoRows t db'' x) ∧
      NoRows t db'' .tenantMemberships := by
  have hrest (x : Table) (hx : x ≠ .tenantMemberships) (hs : x ≠ .sessions) : db' x = db x :=
    h.rest x hx hs
  have howned (x : Table) (hx : x ∈ tenantTables) : db' x = db x :=
    hrest x (by rintro rfl; exact absurd hx (by decide)) (by rintro rfl; exact absurd hx (by decide))
  have hmemberships : ∀ r ∈ db' .tenantMemberships,
      valueIn .userId orphans r = false ∧ valueIn .createdBy orphans r = false := by
    intro r' hr'
    refine ⟨?_, hcreators r' hr'⟩
    obtain ⟨hother, r, hr, hsame⟩ := h.source r' hr'
    by_contra hsel
    obtain ⟨u, hu, hid⟩ : ∃ u ∈ orphans, some u = r' .userId := by simpa [valueIn] using hsel
    refine (not_keeps_iff.mp (horphans u hu)).1 r hr ?_ ?_
    · rw [ofTenant, ← hsame .tenantId (by decide)]
      exact hother
    · rw [← hsame .userId (by decide), hid]
  have hproviders : ∀ r ∈ db' .providerMemberships, valueIn .userId orphans r = false := by
    rw [hrest .providerMemberships (by decide) (by decide)]
    intro r hr
    by_contra hsel
    obtain ⟨u, hu, hid⟩ : ∃ u ∈ orphans, some u = r .userId := by simpa [valueIn] using hsel
    exact (not_keeps_iff.mp (horphans u hu)).2.1 r hr hid.symm
  obtain ⟨db'', hdelete⟩ := exists_delete_users hsessions
  have hkept {x : Table} (hx : x ≠ .users) (hpref : x ≠ .userPreferences)
      {r : Record Column Value} (hr : r ∈ db' x) : r ∈ db'' x :=
    (mem_of_delete_users hdelete hmemberships hproviders hx hr).resolve_right fun hor =>
      hpref hor.1
  refine ⟨db'', hdelete, h.keyed.delete hdelete, ⟨?_, ?_, ?_, ?_⟩, ?_, ?_⟩
  · intro x hx r hr _
    rw [← hrest .users (by decide) (by decide)]
    refine mem_of_delete_users hdelete hmemberships hproviders ?_ ?_
    · rintro rfl
      exact absurd hx (by decide)
    · rwa [howned x hx]
  · intro r hr hother
    obtain ⟨r', hr', hsame⟩ := h.others r hr hother
    exact ⟨r', hkept (by decide) (by decide) hr', hsame⟩
  · intro r hr _
    exact hkept (by decide) (by decide) (by rwa [hrest .tenants (by decide) (by decide)])
  · intro r hr hdeleted
    have hr' : r ∈ db' .users := by rwa [hrest .users (by decide) (by decide)]
    have hsel := valueIn_of_deleted_user hdelete hr' hdeleted
    obtain ⟨u, hu, hid⟩ : ∃ u ∈ orphans, some u = r .id := by simpa [valueIn] using hsel
    obtain ⟨hmember, hprovider, r₀, hr₀, hid₀, hoperator⟩ := not_keeps_iff.mp (horphans u hu)
    have hsame : r = r₀ := hkeyed.eq_of_key hr hr₀ (by
      simp [Schema.key, schema, primaryKey, ← hid, hid₀])
    refine ⟨fun m hm heq => ?_, fun m hm heq => ?_, hsame ▸ hoperator⟩
    · by_contra hother
      exact hmember m hm (by simpa using hother) (heq.trans hid.symm)
    · exact hprovider m hm (heq.trans hid.symm)
  · intro x hx hnone
    exact NoRows.delete hdelete (by rwa [NoRows, howned x hx])
  · exact NoRows.delete hdelete fun r hr => (h.source r hr).1

/-- **The writes about the users.** They are carried out; the memberships of the tenant are gone,
and with them the users that no answer has kept. -/
theorem exists_purgeIdentities (hkeyed : schema.Keyed db)
    (horphans : ∀ u ∈ orphans, ∀ q ∈ questions [u], q.keeps t db = false) :
    ∃ db', purgeIdentities t orphans db = some db' ∧ schema.Keyed db' ∧ KeepsOthers t db db' ∧
      (∀ x ∈ tenantTables, NoRows t db x → NoRows t db' x) ∧ NoRows t db' .tenantMemberships := by
  have hgone := (membersGone_delete (t := t) hkeyed).update_sessions
  simp only [purgeIdentities, delete_tenantMemberships, delete_sessions, Option.pure_def,
    Option.bind_eq_bind, Option.bind_some]
  split_ifs with hnone
  · refine ⟨_, rfl, hgone.keyed, hgone.keepsOthers, fun x hx hrows => ?_,
      fun r hr => (hgone.source r hr).1⟩
    rwa [NoRows, hgone.rest x (by rintro rfl; exact absurd hx (by decide))
      (by rintro rfl; exact absurd hx (by decide))]
  · refine ((hgone.delete_sessions _).clearCreator _).delete_users horphans hkeyed ?_ ?_
    · intro r hr
      rw [Database.update_of_ne (by decide), Function.update_self] at hr
      simpa using (List.mem_filter.mp hr).2
    · intro r' hr'
      obtain ⟨r, -, rfl⟩ := Database.exists_of_mem_update hr'
      split_ifs with hsel
      · simp [valueIn]
      · simpa using hsel

end Users

/-! ### The tenant's row -/

theorem KeepsOthers.confined (h : KeepsOthers t db db') (h' : Confined t db' db'') :
    KeepsOthers t db db'' where
  rows x hx r hr hother := by
    rw [h'.rest .users (by decide) (by decide)]
    exact (h.rows x hx r hr hother).imp (fun hmem => h'.rows x hx r hmem hother) id
  memberships r hr hother := by
    rw [h'.rest .tenantMemberships (by decide) (by decide)]
    exact h.memberships r hr hother
  tenants r hr hother := h'.tenants r (h.tenants r hr hother) hother
  users u hu hgone := by
    rw [h'.rest .users (by decide) (by decide)] at hgone
    exact h.users u hu hgone

/-- Without rows of the tenant nothing but a session refers to the tenant. -/
theorem refers_tenant_eq_false (hrows : ∀ x ∈ tenantTables, NoRows t db x)
    (hmemberships : NoRows t db .tenantMemberships) {k : ForeignKey Table Column}
    (hk : k ∈ schema.foreignKeys) (hparent : k.parent = .tenants) (hchild : k.child ≠ .sessions)
    {r g : Record Column Value} (hr : r ∈ db k.child)
    (hsel : decide (g .id = some (.int t)) = true) : k.refers r g = false := by
  by_contra hrefers
  rw [Bool.not_eq_false] at hrefers
  rcases foreignKey_to_tenants k hk hparent with ⟨hcolumns, hcase⟩ | ⟨hsessions, -⟩
  · have hsame := (ForeignKey.eq_of_refers hrefers (c := (.tenantId, .id)) (by simp [hcolumns])).2
    have ht : ofTenant t r = true := by
      rw [ofTenant, hsame]
      exact hsel
    have hnone : ofTenant t r = false := by
      rcases hcase with hmem | hmem
      · exact hrows k.child hmem r hr
      · exact hmemberships r (hmem ▸ hr)
    rw [ht] at hnone
    cases hnone
  · exact hchild hsessions

/-- **The end of the purge** is carried out if no table and no membership has a row of the
tenant. -/
theorem exists_purgeTenantRow (hkeyed : schema.Keyed db)
    (hrows : ∀ x ∈ tenantTables, NoRows t db x) (hmemberships : NoRows t db .tenantMemberships)
    {auditId : ℤ} (hnew : ∀ r ∈ db .auditLogs, r .id ≠ some (.int auditId)) :
    ∃ db', purgeTenantRow t auditId db = some db' ∧ schema.Keyed db' ∧ KeepsOthers t db db' ∧
      (∀ x ∈ tenantTables, NoRows t db' x) ∧ NoRows t db' .tenantMemberships ∧
      ∀ r ∈ db' .tenants, r .id ≠ some (.int t) := by
  obtain ⟨db', hdelete⟩ : ∃ db', schema.delete db .tenants
      (fun r => r .id = some (.int t)) = some db' := by
    refine Schema.exists_delete fun k hk hparent haction r hr _ g hg hsel => ?_
    refine refers_tenant_eq_false hrows hmemberships hk hparent (fun hsessions => ?_) hr hsel
    rcases foreignKey_to_tenants k hk hparent with ⟨-, hcase⟩ | ⟨-, hnull⟩
    · rw [hsessions] at hcase
      exact absurd hcase (by decide)
    · simp [hnull] at haction
  have hkept {x : Table} (hx : x ≠ .sessions) {r : Record Column Value} (hr : r ∈ db x)
      (hsel : x = .tenants → r .id ≠ some (.int t)) : r ∈ db' x := by
    refine Schema.mem_of_delete hdelete hr (fun heq => by simpa using hsel heq) ?_
    rintro k hk hparent rfl - g hg hg'
    exact refers_tenant_eq_false hrows hmemberships hk hparent hx hr hg'
  have hkeeps : KeepsOthers t db db' := by
    refine ⟨fun x hx r hr _ => Or.inl (hkept ?_ hr ?_), fun r hr _ => ?_, fun r hr hother => ?_,
      fun u hu hgone => ?_⟩
    · rintro rfl
      exact absurd hx (by decide)
    · rintro rfl
      exact absurd hx (by decide)
    · exact ⟨r, hkept (by decide) hr fun heq => absurd heq (by decide), fun _ _ => rfl⟩
    · exact hkept (by decide) hr fun _ => hother
    · exact absurd (hkept (by decide) hu fun heq => absurd heq (by decide)) hgone
  have hkeyed' : schema.Keyed (db'.insert .auditLogs (row [(.id, .int auditId)])) := by
    refine (hkeyed.delete hdelete).insert (fun r' hr' heq => ?_) fun c hc => ?_
    · obtain ⟨r, hr, -, hsame⟩ := Schema.exists_of_mem_delete hdelete hr'
      have hid : r' .id = some (.int auditId) := by
        simpa [Schema.key, schema, primaryKey, row] using heq
      rcases hsame .id with hsame | ⟨hnull, -⟩
      · exact hnew r hr (hsame.symm.trans hid)
      · rw [hnull] at hid
        cases hid
    · obtain rfl : c = .id := by simpa [schema, primaryKey] using hc
      simp [row]
  refine ⟨_, by rw [purgeTenantRow, hdelete]; rfl, hkeyed',
    hkeeps.confined (.insert _ (by decide)), fun x hx r hr => ?_, ?_, ?_⟩
  · by_cases hx' : x = .auditLogs
    · subst hx'
      rw [Database.insert_self] at hr
      rcases List.mem_cons.mp hr with rfl | hr
      · have hnull : row [(.id, .int auditId)] .tenantId = none := rfl
        simp [ofTenant, hnull]
      · exact (hrows _ hx).delete hdelete r hr
    · rw [Database.insert_of_ne _ hx'] at hr
      exact (hrows x hx).delete hdelete r hr
  · rw [NoRows, Database.insert_of_ne _ (by decide)]
    exact hmemberships.delete hdelete
  · rw [Database.insert_of_ne _ (by decide)]
    intro r' hr' hid
    obtain ⟨r, -, hsel, hsame⟩ := Schema.exists_of_mem_delete hdelete hr'
    rcases hsame .id with hsame | ⟨hnull, -⟩
    · have hne := hsel rfl
      simp [← hsame, hid] at hne
    · rw [hnull] at hid
      cases hid

end Nodeglow.Tenancy.Purge
