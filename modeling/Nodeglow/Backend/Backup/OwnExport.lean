import Nodeglow.Backend.Backup.LegacySecrets

/-!
# Restoring an installation's own export

The tables of an installation's own export come back as they were: every row is exported with all
columns of its table, and a value that is exported and imported is the same. But the restore empties
the memberships of providers with the users that they refer to, and nothing fills them again. And
the steps for backups of older releases take an own export for one of these, as far as it looks like
one: they move the settings of the installation that a tenant may have of its own, they give a user
who was removed from every tenant a membership, and they move secrets to the tenants' keys.

## Main results

* `restoreTables_export` — the tables of an own export.
* `isIdentity_iff` — exactly when the restore of an own export changes nothing.
* `not_isIdentity_provider` — the membership of a provider is lost.

Source: `backend/services/backup.py`, lines 18–47, 97–139 and 171–378.
-/

namespace Nodeglow.Backup

open Relational

variable {φ δ K : Type} {env : Installation φ δ K}

/-! ### The tables of an own export -/

theorem lookup_map_of_nodup {α β : Type} {l : List (String × α)} (hl : (l.map Prod.fst).Nodup)
    (f : String × α → β) {x : String × α} (hx : x ∈ l) :
    (l.map fun c => (c.1, f c)).lookup x.1 = some (f x) := by
  induction l with
  | nil => cases hx
  | cons y l ih =>
    rw [List.map_cons, List.nodup_cons] at hl
    rcases List.mem_cons.mp hx with rfl | hx
    · simp
    · have hne : x.1 ≠ y.1 := fun heq => hl.1 (heq ▸ List.mem_map_of_mem hx)
      rw [List.map_cons, List.lookup_cons, beq_eq_false_iff_ne.mpr hne]
      exact ih hl.2 hx

theorem lookup_columns {t : Table} {c : String × ColumnType} (hc : c ∈ columns t) :
    (columns t).lookup c.1 = some c.2 := by
  simpa using lookup_map_of_nodup (nodup_columns t) Prod.snd hc

theorem keys_exportRow (py : Python φ δ) (t : Table) (r : Row φ δ) :
    (exportRow py t r).keys = columnNames t := by
  simp [Dict.keys, exportRow, columnNames, List.map_map, Function.comp_def]

theorem get_exportRow (py : Python φ δ) {t : Table} (r : Row φ δ) {c : String × ColumnType}
    (hc : c ∈ columns t) : (exportRow py t r).get c.1 = serialize py (r c.1) := by
  have hlookup : (exportRow py t r).entries.lookup c.1 = some (serialize py (r c.1)) :=
    lookup_map_of_nodup (nodup_columns t) (fun c => serialize py (r c.1)) hc
  rw [Dict.get, hlookup, Option.getD_some]

theorem insertDefaults_export (t : Table) (r : Row φ δ) :
    insertDefaults env t (exportRow env.py t r) = [] := by
  rw [insertDefaults, keys_exportRow, if_neg (fun h => h.2 h.1), if_neg (fun h => h.2 h.1),
    List.append_nil]

/-- A row is inserted with all its columns. -/
theorem insertValues_export (t : Table) (first r : Row φ δ) :
    insertValues env t (exportRow env.py t first) (exportRow env.py t r) =
      (columns t).map fun c => (c.1, bindParam env.py c.2 (serialize env.py (r c.1))) := by
  have hnames : (columnNames t).filter (· ∈ columnNames t) = columnNames t :=
    List.filter_eq_self.mpr fun c hc => decide_eq_true hc
  rw [insertValues, insertDefaults_export, keys_exportRow, hnames]
  simp only [List.map_nil, List.append_nil, List.lookup_nil, columnNames, List.map_map]
  refine List.map_congr_left fun c hc => ?_
  rw [Function.comp_apply, lookup_columns hc, Option.getD_some, get_exportRow env.py r hc]

/-- **A row is inserted as it was.** -/
theorem insertRow_export {t : Table} {r : Row φ δ} {front : List (Row φ δ)} (first : Row φ δ)
    (hfits : ∀ c v, r c = some v → ∃ type, (c, type) ∈ columns t ∧ type.fits v = true)
    (haccepted : env.pg.accepts t front r = true) :
    insertRow env t (insertValues env t (exportRow env.py t first) (exportRow env.py t r)) front =
      some (front ++ [r]) := by
  have hencode {c : String × ColumnType} (hc : c ∈ columns t) :
      env.pg.encode c.2 (bindParam env.py c.2 (serialize env.py (r c.1))) = some (r c.1) := by
    refine encode_bindParam_serialize fun v hv => ?_
    obtain ⟨type, hmem, hv⟩ := hfits c.1 v hv
    have heq : type = c.2 := Option.some.inj ((lookup_columns hmem).symm.trans (lookup_columns hc))
    rwa [← heq]
  have hcells (l : List (String × ColumnType)) (hl : l ⊆ columns t) :
      (l.map fun c => (c.1, bindParam env.py c.2 (serialize env.py (r c.1)))).mapM
        (fun value => do
          let type ← (columns t).lookup value.1
          (env.pg.encode type value.2).map (value.1, ·)) =
        some (l.map fun c => (c.1, r c.1)) := by
    induction l with
    | nil => rfl
    | cons c l ih =>
      have hc := hl List.mem_cons_self
      rw [List.map_cons, List.mapM_cons, ih fun x hx => hl (List.mem_cons_of_mem c hx)]
      simp [lookup_columns hc, hencode hc]
  have hrow : (fun c => (((columns t).map fun c => (c.1, r c.1)).lookup c).getD
      (if c ∈ columnNames t then env.pg.default t c else none)) = r := by
    funext c
    by_cases hc : c ∈ columnNames t
    · obtain ⟨x, hx, rfl⟩ := List.mem_map.mp hc
      rw [lookup_map_of_nodup (nodup_columns t) (fun c => r c.1) hx, Option.getD_some]
    · have hnone : ((columns t).map fun c => (c.1, r c.1)).lookup c = none := by
        rw [List.lookup_eq_none_iff]
        intro p hp
        obtain ⟨x, hx, rfl⟩ := List.mem_map.mp hp
        simpa using fun heq : c = x.1 => hc (heq ▸ List.mem_map_of_mem hx)
      rw [hnone, Option.getD_none, if_neg hc]
      cases hv : r c with
      | none => rfl
      | some v =>
        obtain ⟨type, hmem, -⟩ := hfits c v hv
        exact absurd (List.mem_map_of_mem hmem) hc
  rw [insertValues_export, insertRow, hcells _ (List.Subset.refl _)]
  simp only [Option.bind_eq_bind, Option.bind_some, hrow, haccepted, if_true]

variable (content : Content env.pg)

/-- The rows of a table are inserted as they were. -/
theorem foldlM_insertRow {t : Table} (ht : t ∈ exportTables) (first : Row φ δ)
    (back front : List (Row φ δ)) (h : content.rows t = front ++ back) :
    (back.map (exportRow env.py t)).foldlM
      (fun inserted row => insertRow env t
        (insertValues env t (exportRow env.py t first) row) inserted) front =
      some (content.rows t) := by
  induction back generalizing front with
  | nil => rw [h, List.append_nil]; rfl
  | cons r back ih =>
    have hmem : r ∈ content.rows t := by
      rw [h]
      exact List.mem_append_right _ List.mem_cons_self
    have hinsert : insertRow env t _ front = _ := insertRow_export first (content.fits t ht r hmem)
      (content.accepted t ht front r back h)
    rw [List.map_cons, List.foldlM_cons, hinsert]
    exact ih (front ++ [r]) (by rw [h, List.append_assoc, List.singleton_append])

/-- What an own export has of a table. -/
theorem importedRows_export {t : Table} (ht : t ∈ exportTables) (rows : Rows φ δ) :
    importedRows (exportBackup env rows) t =
      if t.present then (rows t).map (exportRow env.py t) else [] := by
  have htable : (exportBackup env rows).tables t =
      some (if t.present then (rows t).map (exportRow env.py t) else []) := if_pos ht
  rw [importedRows, htable]
  cases hpresent : t.present with
  | false => rfl
  | true =>
    rw [if_pos rfl]
    cases rows t with
    | nil => rfl
    | cons r rest =>
      have hne : (exportRow env.py t r).keys.filter (· ∈ columnNames t) ≠ [] := by
        rw [keys_exportRow, List.filter_eq_self.mpr fun c hc => decide_eq_true hc]
        simpa [columnNames] using columns_ne_nil ht hpresent
      simp only [List.map_cons, if_neg hne]

/-- A table that is empty gets its rows back. -/
theorem restoreTable_export {t : Table} (ht : t ∈ exportTables) {rows : Rows φ δ}
    (hempty : t.present = true → rows t = []) :
    restoreTable env (exportBackup env content.rows) rows t =
      some (if t.present then Function.update rows t (content.rows t) else rows) := by
  rw [restoreTable, importedRows_export ht]
  cases hpresent : t.present with
  | false => rfl
  | true =>
    rw [if_pos rfl]
    cases hrows : content.rows t with
    | nil =>
      have hself : Function.update rows t [] = rows := by
        rw [← hempty hpresent, Function.update_eq_self]
      rw [List.map_nil, if_pos rfl, hself]
    | cons r rest =>
      have hfold := foldlM_insertRow content ht r (content.rows t) [] (List.nil_append _).symm
      rw [hrows, ← hempty hpresent] at hfold
      simp only [List.map_cons] at hfold ⊢
      rw [hfold]
      rfl

/-- All tables that are empty get their rows back. -/
theorem foldlM_restoreTable (l : List Table) (hl : l ⊆ exportTables) (hnodup : l.Nodup)
    {rows : Rows φ δ} (hempty : ∀ t ∈ l, t.present = true → rows t = []) :
    l.foldlM (restoreTable env (exportBackup env content.rows)) rows =
      some fun t => if t ∈ l ∧ t.present = true then content.rows t else rows t := by
  induction l generalizing rows with
  | nil => simp
  | cons t l ih =>
    rw [List.nodup_cons] at hnodup
    have ht := hl List.mem_cons_self
    rw [List.foldlM_cons, restoreTable_export content ht (hempty t List.mem_cons_self)]
    have hstep {rows' : Rows φ δ}
        (hrows' : rows' = if t.present then Function.update rows t (content.rows t) else rows) :
        l.foldlM (restoreTable env (exportBackup env content.rows)) rows' =
          some fun t => if t ∈ l ∧ t.present = true then content.rows t else rows' t := by
      refine ih (fun x hx => hl (List.mem_cons_of_mem t hx)) hnodup.2 fun x hx hpresent => ?_
      have hne : x ≠ t := fun heq => hnodup.1 (heq ▸ hx)
      rw [hrows']
      split
      · rw [Function.update_of_ne hne, hempty x (List.mem_cons_of_mem t hx) hpresent]
      · exact hempty x (List.mem_cons_of_mem t hx) hpresent
    rw [Option.bind_eq_bind, Option.bind_some, hstep rfl]
    congr 1
    funext x
    by_cases heq : x = t
    · subst heq
      cases x.present with
      | true => simp [hnodup.1]
      | false => simp
    · by_cases hpresent : t.present = true <;> simp [heq, hpresent, Function.update_of_ne]

/-- What is left after the table restore. -/
def emptied (rows : Rows φ δ) : Rows φ δ := fun t => if t ∈ cascaded then [] else rows t

/-- **The tables of an own export** come back; those that are emptied with them do not. -/
theorem restoreTables_export :
    restoreTables env (exportBackup env content.rows) content.rows =
      some (emptied content.rows) := by
  have htruncated : truncatedTables (exportBackup env content.rows) =
      (exportTables.filter Table.present).reverse := by
    rw [truncatedTables, ← List.filter_reverse]
    refine List.filter_congr fun t ht => ?_
    have htable : ((exportBackup env content.rows).tables t).isSome = true := by
      rw [exportBackup]
      simp only [List.mem_reverse.mp ht, if_true, Option.isSome_some]
    rw [htable, Bool.true_and]
  have hafter (t : Table) : truncateAll references
      (truncatedTables (exportBackup env content.rows)) content.rows t =
        if t ∈ emptiedTables then [] else content.rows t := by
    rw [truncateAll_apply, htruncated]
    simp only [List.mem_reverse, exists_cascadeGroup_iff]
  rw [restoreTables, foldlM_restoreTable content exportTables (List.Subset.refl _)
    nodup_exportTables]
  · congr 1
    funext t
    rw [hafter, emptied]
    by_cases ht : t ∈ exportTables.filter Table.present
    · have hnot : t ∉ cascaded := by
        revert t
        decide
      rw [if_pos (List.mem_filter.mp ht), if_neg hnot]
    · rw [if_neg fun h => ht (List.mem_filter.mpr h)]
      simp only [emptiedTables, List.mem_append, ht, false_or]
  · intro t ht hpresent
    have hmem : t ∈ emptiedTables := List.mem_append_left _ (List.mem_filter.mpr ⟨ht, hpresent⟩)
    rw [hafter, if_pos hmem]

/-! ### The steps after it -/

variable {rows rows' : Rows φ δ} {doc : Document φ}

theorem adoptLegacyTenantSettings_of_none
    (h : ∀ r ∈ rows .settings, isTenantSetting env r = false) :
    adoptLegacyTenantSettings env false rows = (rows, 0) := by
  have hmoved : (rows .settings).filter (isTenantSetting env) = [] :=
    List.filter_eq_nil_iff.mpr fun r hr => by simp [h r hr]
  rw [adoptLegacyTenantSettings, hmoved]
  exact if_pos ⟨rfl, rfl⟩

/-- The settings of the installation lose those of a tenant. -/
theorem settings_adoptLegacyTenantSettings (env : Installation φ δ K) (replace : Bool)
    (rows : Rows φ δ) : (adoptLegacyTenantSettings env replace rows).1 .settings =
      (rows .settings).filter fun r => !isTenantSetting env r := by
  unfold adoptLegacyTenantSettings
  dsimp only
  split
  · rename_i h
    refine (List.filter_eq_self.mpr fun r hr => ?_).symm
    simpa using List.filter_eq_nil_iff.mp h.1 r hr
  · have hne : (.settings : Table) ≠ .owned .tenantSettings := by decide
    dsimp only
    rw [Function.update_of_ne hne, Function.update_self]

theorem adoptLegacyTenantSettings_apply_of_ne {t : Table} (ht : t ≠ .settings)
    (ht' : t ≠ .owned .tenantSettings) (replace : Bool) :
    (adoptLegacyTenantSettings env replace rows).1 t = rows t := by
  unfold adoptLegacyTenantSettings
  dsimp only
  split
  · rfl
  · dsimp only
    rw [Function.update_of_ne ht', Function.update_of_ne ht]

theorem backfillMemberships_of_nil (h : strayUsers rows = []) :
    backfillMemberships env rows = (rows, 0) := by
  rw [backfillMemberships, h, List.map_nil, List.append_nil, Function.update_eq_self]
  rfl

/-- No membership is removed. -/
theorem length_syncMembership (users : List (Row φ δ)) (state : List (Row φ δ) × ℕ) :
    state.1.length ≤ (users.foldl (syncMembership env) state).1.length := by
  induction users generalizing state with
  | nil => exact Nat.le_refl _
  | cons u users ih =>
    refine Nat.le_trans ?_ (ih _)
    unfold syncMembership
    split
    · simp
    · split <;> simp

theorem syncFromUsersRole_apply_of_ne {t : Table} (ht : t ≠ .owned .tenantMemberships)
    (ht' : t ≠ .owned .users) : (syncFromUsersRole env rows).1 t = rows t :=
  (Function.update_of_ne ht' _ _).trans (Function.update_of_ne ht _ _)

theorem backfillMemberships_apply_of_ne {t : Table} (ht : t ≠ .owned .tenantMemberships) :
    (backfillMemberships env rows).1 t = rows t :=
  Function.update_of_ne ht _ _

/-- The tables that the steps change. -/
theorem syncLegacy_apply_of_ne {t : Table}
    (ht : t ∉ [.settings, .owned .tenantSettings, .owned .tenantMemberships, .owned .users]) :
    (syncLegacy env doc rows).1 t = rows t := by
  simp only [List.mem_cons, List.not_mem_nil, or_false, not_or] at ht
  obtain ⟨hsettings, htenant, hmemberships, husers⟩ := ht
  have hadopted : (adoptLegacyTenantSettings env (isPre042 doc) rows).1 t = rows t :=
    adoptLegacyTenantSettings_apply_of_ne hsettings htenant _
  rw [syncLegacy]
  dsimp only
  split
  · exact (syncFromUsersRole_apply_of_ne hmemberships husers).trans hadopted
  · exact (backfillMemberships_apply_of_ne hmemberships).trans hadopted

theorem settings_syncLegacy : (syncLegacy env doc rows).1 .settings =
    (rows .settings).filter fun r => !isTenantSetting env r := by
  rw [← settings_adoptLegacyTenantSettings env (isPre042 doc), syncLegacy]
  dsimp only
  split
  · exact syncFromUsersRole_apply_of_ne (by decide) (by decide)
  · exact backfillMemberships_apply_of_ne (by decide)

/-- Users without any membership do not stay so. -/
theorem strayUsers_eq_nil_of_syncLegacy
    (hpre : isPre043 doc = true → rows (.owned .users) ≠ [] ∧
      rows (.owned .tenantMemberships) = [])
    (h : (syncLegacy env doc rows).1 (.owned .tenantMemberships) =
      rows (.owned .tenantMemberships)) : strayUsers rows = [] := by
  have husers : (adoptLegacyTenantSettings env (isPre042 doc) rows).1 (.owned .users) =
      rows (.owned .users) := adoptLegacyTenantSettings_apply_of_ne (by decide) (by decide) _
  have hmemberships : (adoptLegacyTenantSettings env (isPre042 doc) rows).1
      (.owned .tenantMemberships) = rows (.owned .tenantMemberships) :=
    adoptLegacyTenantSettings_apply_of_ne (by decide) (by decide) _
  unfold syncLegacy at h
  dsimp only at h
  split at h
  · rename_i hpre043
    obtain ⟨hne, hnil⟩ := hpre hpre043
    have hne' : (.owned .tenantMemberships : Table) ≠ .owned .users := by decide
    rw [syncFromUsersRole] at h
    dsimp only at h
    rw [Function.update_of_ne hne', Function.update_self, husers, hmemberships, hnil] at h
    obtain ⟨u, users, hcons⟩ := List.exists_cons_of_ne_nil hne
    rw [hcons, List.foldl_cons] at h
    have hlength : _ ≤ (users.foldl (syncMembership env) _).1.length :=
      length_syncMembership users (syncMembership env ([], 0) u)
    rw [h] at hlength
    simp [syncMembership] at hlength
  · have hstray : strayUsers (adoptLegacyTenantSettings env (isPre042 doc) rows).1 =
        strayUsers rows := by
      rw [strayUsers, strayUsers, husers, hmemberships]
    rw [backfillMemberships] at h
    dsimp only at h
    rw [Function.update_self, hmemberships, hstray] at h
    simpa using h

theorem strayUsers_eq_nil_iff : strayUsers rows = [] ↔
    ∀ u ∈ rows (.owned .users), ∃ m ∈ rows (.owned .tenantMemberships),
      Row.int? m "user_id" = Row.int? u "id" := by
  simp [strayUsers, List.filter_eq_nil_iff]

theorem tables_exportBackup {t : Table} (ht : t ∈ exportTables) (hpresent : t.present = true) :
    (exportBackup env rows).tables t = some ((rows t).map (exportRow env.py t)) := by
  rw [exportBackup]
  simp only [ht, if_true, hpresent]

/-- An own export looks like one of an old release only if nobody is a member of a tenant. -/
theorem isPre043_export (h : isPre043 (exportBackup env rows) = true) :
    rows (.owned .users) ≠ [] ∧ rows (.owned .tenantMemberships) = [] := by
  have husers : (exportBackup env rows).tables (.owned .users) = some _ :=
    tables_exportBackup (by decide) rfl
  have hmemberships : (exportBackup env rows).tables (.owned .tenantMemberships) = some _ :=
    tables_exportBackup (by decide) rfl
  rw [isPre043, husers, hmemberships] at h
  cases hrows : rows (.owned .users) with
  | nil =>
    rw [hrows] at h
    cases h
  | cons u users =>
    have hcolumn : "is_operator" ∈ columnNames (.owned .users) := by decide
    rw [hrows] at h
    simp only [List.map_cons, keys_exportRow, hcolumn, not_true, decide_false, Bool.false_or,
      Option.getD_some, List.isEmpty_iff, List.map_eq_nil_iff] at h
    exact ⟨List.cons_ne_nil _ _, h⟩

/-- The steps for older releases find nothing to do. -/
theorem syncLegacy_export (hsettings : ∀ r ∈ rows' .settings, isTenantSetting env r = false)
    (hstray : strayUsers rows' = [])
    (hsame : ∀ t, t ∈ [Table.owned .users, Table.owned .tenantMemberships] → rows' t = rows t) :
    syncLegacy env (exportBackup env rows) rows' = (rows', 0) := by
  have hpre042 : isPre042 (exportBackup env rows) = false := by
    have htable : (exportBackup env rows).tables (.owned .tenantSettings) = some _ :=
      tables_exportBackup (by decide) rfl
    rw [isPre042, htable, Option.isNone_some, Bool.and_false]
  have hpre043 : isPre043 (exportBackup env rows) = false := by
    refine Bool.eq_false_iff.mpr fun hpre => ?_
    obtain ⟨husers, hmemberships⟩ := isPre043_export hpre
    rw [← hsame _ (by simp)] at husers hmemberships
    obtain ⟨u, hu⟩ := List.exists_mem_of_ne_nil _ husers
    obtain ⟨m, hm, -⟩ := strayUsers_eq_nil_iff.mp hstray u hu
    rw [hmemberships] at hm
    cases hm
  rw [syncLegacy, hpre042, hpre043, adoptLegacyTenantSettings_of_none hsettings]
  simp only [Bool.false_eq_true, if_false, backfillMemberships_of_nil hstray]

/-! ### The tenants of an own export -/

/-- The tenant that a row is restored for. -/
def restoredTenant (env : Installation φ δ K) (r : Row φ δ) : ℤ :=
  match Row.int? r "tenant_id" with
  | some tid => if tid = 0 then env.tenantId else tid
  | none => env.tenantId

theorem mem_exportTables_of_mem_tenantTables {t : Table} (ht : t ∈ tenantTables) :
    t ∈ exportTables ∧ t.present = true ∧ ("tenant_id", .integer) ∈ columns t := by
  revert t
  decide

/-- A row names its tenant by a number of the column, if it names one. -/
theorem tenant_id_cases {t : Table} (ht : t ∈ tenantTables) {r : Row φ δ}
    (hr : r ∈ content.rows t) : r "tenant_id" = none ∨
      ∃ tid, r "tenant_id" = some (.int tid) ∧ isInt32 tid = true := by
  obtain ⟨hexport, -, hcolumn⟩ := mem_exportTables_of_mem_tenantTables ht
  cases hv : r "tenant_id" with
  | none => exact .inl rfl
  | some v =>
    obtain ⟨type, hmem, hfits⟩ := content.fits t hexport r hr "tenant_id" v hv
    obtain rfl : type = .integer :=
      Option.some.inj ((lookup_columns hmem).symm.trans (lookup_columns hcolumn))
    cases v with
    | int tid => exact .inr ⟨tid, rfl, hfits⟩
    | _ => cases hfits

theorem tenantOf_export {t : Table} (ht : t ∈ tenantTables) {r : Row φ δ}
    (hr : r ∈ content.rows t) :
    tenantOf env (exportRow env.py t r) = some (restoredTenant env r) := by
  have hget : (exportRow env.py t r).get "tenant_id" = _ :=
    get_exportRow env.py r (mem_exportTables_of_mem_tenantTables ht).2.2
  rw [tenantOf, hget, restoredTenant, Row.int?]
  rcases tenant_id_cases _ ht hr with hv | ⟨tid, hv, -⟩
  · rw [hv]
    rfl
  · rw [hv]
    simp only [serialize, Cell.truthy, env.py.int_int, decide_eq_true_eq]
    by_cases hzero : tid = 0 <;> simp [hzero]

theorem isInt32_restoredTenant {t : Table} (ht : t ∈ tenantTables) {r : Row φ δ}
    (hr : r ∈ content.rows t) : isInt32 (restoredTenant env r) = true := by
  rw [restoredTenant, Row.int?]
  rcases tenant_id_cases _ ht hr with hv | ⟨tid, hv, hfits⟩
  · rw [hv]
    exact env.isInt32_tenantId
  · rw [hv]
    dsimp only
    split
    · exact env.isInt32_tenantId
    · exact hfits

theorem nodup_restoredTenants {doc : Document φ} {tids : List ℤ}
    (h : restoredTenants env doc = some tids) : tids.Nodup := by
  obtain ⟨l, -, heq⟩ := Option.bind_eq_some_iff.mp h
  rw [← Option.some.inj heq, (List.perm_insertionSort _ _).nodup_iff]
  exact List.nodup_dedup l

/-- The tenants that rows are restored for. -/
def namedTenants (env : Installation φ δ K) (rows : Rows φ δ) : List ℤ :=
  ((tenantTables.flatMap rows).map (restoredTenant env)).dedup

theorem mem_namedTenants {rows : Rows φ δ} {tid : ℤ} : tid ∈ namedTenants env rows ↔
    ∃ t ∈ tenantTables, ∃ r ∈ rows t, restoredTenant env r = tid := by
  simp only [namedTenants, List.mem_dedup, List.mem_map, List.mem_flatMap]
  constructor
  · rintro ⟨r, ⟨t, ht, hr⟩, rfl⟩
    exact ⟨t, ht, r, hr, rfl⟩
  · rintro ⟨t, ht, r, hr, rfl⟩
    exact ⟨r, ⟨t, ht, hr⟩, rfl⟩

/-- The tenants of a content can be queried, unless they are too many. -/
theorem selectable_iff {tids : List ℤ} (hnodup : tids.Nodup)
    (hmem : ∀ tid, tid ∈ tids ↔ ∃ t ∈ tenantTables, ∃ r ∈ content.rows t,
      restoredTenant env r = tid) :
    selectable tids = true ↔ (namedTenants env content.rows).length ≤ 32767 := by
  have hperm : tids.Perm (namedTenants env content.rows) :=
    (List.perm_ext_iff_of_nodup hnodup (List.nodup_dedup _)).mpr fun tid =>
      (hmem tid).trans mem_namedTenants.symm
  have hall : tids.all isInt32 = true := by
    refine List.all_eq_true.mpr fun tid htid => ?_
    obtain ⟨t, ht, r, hr, rfl⟩ := (hmem tid).mp htid
    exact isInt32_restoredTenant content ht hr
  rw [selectable, hall, Bool.true_and, decide_eq_true_eq, hperm.length_eq]

theorem restoredTenants_export :
    ∃ tids, restoredTenants env (exportBackup env content.rows) = some tids ∧
      ∀ tid, tid ∈ tids ↔
        ∃ t ∈ tenantTables, ∃ r ∈ content.rows t, restoredTenant env r = tid := by
  have hmapM {l : List (Dict φ)} {f : Dict φ → ℤ} (hl : ∀ d ∈ l, tenantOf env d = some (f d)) :
      l.mapM (tenantOf env) = some (l.map f) := by
    induction l with
    | nil => rfl
    | cons d l ih =>
      obtain ⟨hd, hl⟩ := List.forall_mem_cons.mp hl
      rw [List.mapM_cons, hd, ih hl]
      rfl
  let exported := tenantTables.flatMap fun t =>
    ((exportBackup env content.rows).tables t).getD []
  have hexported {d : Dict φ} : d ∈ exported ↔
      ∃ t ∈ tenantTables, ∃ r ∈ content.rows t, exportRow env.py t r = d := by
    simp only [exported, List.mem_flatMap]
    refine exists_congr fun t => and_congr_right fun ht => ?_
    obtain ⟨hexport, hpresent, -⟩ := mem_exportTables_of_mem_tenantTables ht
    rw [tables_exportBackup hexport hpresent, Option.getD_some, List.mem_map]
  have hall : ∀ d ∈ exported, tenantOf env d = some ((tenantOf env d).getD 0) := by
    intro d hd
    obtain ⟨t, ht, r, hr, rfl⟩ := hexported.mp hd
    rw [tenantOf_export content ht hr, Option.getD_some]
  refine ⟨_, by rw [restoredTenants, hmapM hall]; rfl, fun tid => ?_⟩
  rw [List.mem_insertionSort, List.mem_dedup, List.mem_map]
  constructor
  · rintro ⟨d, hd, rfl⟩
    obtain ⟨t, ht, r, hr, rfl⟩ := hexported.mp hd
    exact ⟨t, ht, r, hr, by rw [tenantOf_export content ht hr, Option.getD_some]⟩
  · rintro ⟨t, ht, r, hr, rfl⟩
    exact ⟨_, hexported.mpr ⟨t, ht, r, hr, rfl⟩,
      by rw [tenantOf_export content ht hr, Option.getD_some]⟩

/-! ### When nothing changes -/

section Main

variable [LinearOrder δ]

/-- The restore of an own export leaves everything as it was, but for the sessions. -/
def IsIdentity (env : Installation φ δ K) (rows : Rows φ δ) : Prop :=
  let result := importBackup env (exportBackup env rows) rows
  (∃ imported, result.2 = .ok imported) ∧ ∀ t, t ≠ .owned .sessions → result.1 t = rows t

/-- Nothing is there that the restore loses or changes: no provider has members, no setting of the
installation is one that a tenant may have, every user is a member of some tenant, the tenants are
not too many for one query, and their secrets are under their keys, or cannot be moved. -/
structure Complete (env : Installation φ δ K) (rows : Rows φ δ) : Prop where
  providerMemberships : rows (.owned .providerMemberships) = []
  settings : ∀ r ∈ rows .settings, isTenantSetting env r = false
  members : ∀ u ∈ rows (.owned .users), ∃ m ∈ rows (.owned .tenantMemberships),
    Row.int? m "user_id" = Row.int? u "id"
  tenants : (namedTenants env rows).length ≤ 32767
  secrets : ∀ t ∈ tenantTables, ∀ r ∈ rows t, restoredTenant env r ∈ tenantIds rows →
    Settled env (restoredTenant env r) rows

/-- What an import does after it has restored the tables of an own export. -/
theorem importBackup_export : ∃ tids : List ℤ,
    (∀ tid, tid ∈ tids ↔ ∃ t ∈ tenantTables, ∃ r ∈ content.rows t, restoredTenant env r = tid) ∧
      let result := importBackup env (exportBackup env content.rows) content.rows
      let synced := (syncLegacy env (exportBackup env content.rows) (emptied content.rows)).1
      ∀ final, ((∃ imported, result.2 = .ok imported) ∧ result.1 = final) ↔
        (namedTenants env content.rows).length ≤ 32767 ∧
          (tids.filter (· ∈ tenantIds content.rows)).foldlM (reencryptLegacy env) synced =
            .ok final := by
  obtain ⟨tids, htids, hmem⟩ := @restoredTenants_export _ _ _ env content
  refine ⟨tids, hmem, fun final => ?_⟩
  have htenants : tenantIds (syncLegacy env (exportBackup env content.rows)
      (emptied content.rows)).1 = tenantIds content.rows := by
    rw [tenantIds, syncLegacy_apply_of_ne (by decide), emptied, if_neg (by decide), tenantIds]
  have hformat : (exportBackup env content.rows).format = some "nodeglow-backup" := rfl
  unfold importBackup
  rw [hformat, if_neg (fun h => h rfl), restoreTables_export content]
  dsimp only
  rw [htids]
  dsimp only
  rw [htenants, ← selectable_iff content (nodup_restoredTenants htids) hmem]
  cases selectable tids with
  | false => simp
  | true =>
  rw [if_neg Bool.true_eq_false.mp]
  cases (tids.filter (· ∈ tenantIds content.rows)).foldlM (reencryptLegacy env)
      (syncLegacy env (exportBackup env content.rows) (emptied content.rows)).1 with
  | error e => simp
  | ok reencrypted => simp

omit [LinearOrder δ] in
theorem emptied_of_tenantTables {t : Table} (ht : t ∈ tenantTables) :
    emptied content.rows t = content.rows t := by
  refine if_neg ?_
  revert t
  decide

omit [LinearOrder δ] in
theorem tenantRows_emptied {t : Table} (ht : t ∈ tenantTables) (tid : ℤ) :
    tenantRows tid t (emptied content.rows) = tenantRows tid t content.rows := by
  rw [tenantRows, emptied_of_tenantTables content ht, tenantRows]

omit [LinearOrder δ] in
theorem strayUsers_emptied : strayUsers (emptied content.rows) = strayUsers content.rows := by
  rw [strayUsers, strayUsers, emptied, emptied, if_neg (by decide), if_neg (by decide)]

omit [LinearOrder δ] in
/-- Settings and members of the right tenants are left as they are. -/
theorem syncLegacy_of_members
    (hsettings : ∀ r ∈ content.rows .settings, isTenantSetting env r = false)
    (hnil : strayUsers content.rows = []) :
    syncLegacy env (exportBackup env content.rows) (emptied content.rows) =
      (emptied content.rows, 0) := by
  refine syncLegacy_export ?_ ((strayUsers_emptied content).trans hnil) fun t ht => if_neg ?_
  · rw [emptied, if_neg (by decide)]
    exact hsettings
  · revert t
    decide

theorem complete_of_isIdentity (h : IsIdentity env content.rows) : Complete env content.rows := by
  obtain ⟨tids, hmem, hresult⟩ := @importBackup_export _ _ _ env content _
  obtain ⟨hok, hsame⟩ := h
  obtain ⟨hfew, hfold⟩ := (hresult _).mp ⟨hok, rfl⟩
  generalize (importBackup env (exportBackup env content.rows) content.rows).1 = final
    at hsame hfold
  -- What the move of the secrets does not write is as the step before has left it.
  have hlater {t : Table} (ht : ∀ s ∈ secretColumns, t ≠ s.table) (hkeys : t ≠ .owned .tenantKeys)
      (hsessions : t ≠ .owned .sessions) :
      (syncLegacy env (exportBackup env content.rows) (emptied content.rows)).1 t =
        content.rows t :=
    (reencryptAll_apply_of_ne ht hkeys hfold).symm.trans (hsame t hsessions)
  have hprovider : content.rows (.owned .providerMemberships) = [] := by
    rw [← hlater (by decide) (by decide) (by decide), syncLegacy_apply_of_ne (by decide)]
    rfl
  have hsettings : ∀ r ∈ content.rows .settings, isTenantSetting env r = false := by
    have heq := hlater (t := .settings) (by decide) (by decide) (by decide)
    rw [settings_syncLegacy, emptied, if_neg (by decide)] at heq
    intro r hr
    simpa using List.filter_eq_self.mp heq r hr
  have hnil : strayUsers content.rows = [] := by
    rw [← strayUsers_emptied content]
    refine @strayUsers_eq_nil_of_syncLegacy _ _ _ env _ (exportBackup env content.rows)
      (fun hpre => ?_) ?_
    · rw [emptied, emptied, if_neg (by decide), if_neg (by decide)]
      exact isPre043_export hpre
    · rw [hlater (by decide) (by decide) (by decide), emptied, if_neg (by decide)]
  rw [syncLegacy_of_members content hsettings hnil] at hfold
  have hfinal {t : Table} (ht : t ∈ tenantTables) : final t = emptied content.rows t := by
    rw [emptied_of_tenantTables content ht]
    refine hsame t ?_
    revert t
    decide
  have hcount : legacyCount final = legacyCount (emptied content.rows) := by
    simp only [legacyCount, secretColumns, List.map_cons, List.map_nil,
      hfinal (t := .owned .integrationConfigs) (by decide),
      hfinal (t := .owned .credentials) (by decide),
      hfinal (t := .owned .tenantSettings) (by decide)]
  obtain ⟨-, -, hsettled⟩ := settled_of_foldlM hfold
  refine ⟨hprovider, hsettings, strayUsers_eq_nil_iff.mp hnil, hfew, fun t ht r hr htenant => ?_⟩
  refine (settled_congr fun t ht => tenantRows_emptied content ht _).mp
    (hsettled hcount (by rw [hfinal (by decide)]) _ ?_)
  exact List.mem_filter.mpr ⟨(hmem _).mpr ⟨t, ht, r, hr, rfl⟩, decide_eq_true htenant⟩

theorem isIdentity_of_complete (h : Complete env content.rows) : IsIdentity env content.rows := by
  obtain ⟨tids, hmem, hresult⟩ := @importBackup_export _ _ _ env content _
  have hsynced := syncLegacy_of_members content h.settings (strayUsers_eq_nil_iff.mpr h.members)
  have hfold : (tids.filter (· ∈ tenantIds content.rows)).foldlM (reencryptLegacy env)
      (emptied content.rows) = .ok (emptied content.rows) := by
    refine foldlM_of_settled fun tid htid =>
      (settled_congr fun t ht => tenantRows_emptied content ht _).mpr ?_
    obtain ⟨hrestored, htenant⟩ := List.mem_filter.mp htid
    obtain ⟨t, ht, r, hr, rfl⟩ := (hmem tid).mp hrestored
    exact h.secrets t ht r hr (of_decide_eq_true htenant)
  obtain ⟨hok, hfinal⟩ := (hresult _).mpr ⟨h.tenants, by rw [hsynced]; exact hfold⟩
  refine ⟨hok, fun t ht => ?_⟩
  rw [hfinal, emptied]
  split
  · rename_i hcascaded
    rcases List.mem_cons.mp hcascaded with rfl | hprovider
    · exact absurd rfl ht
    · rw [List.mem_singleton.mp hprovider, h.providerMemberships]
  · rfl

/-- **When the restore of an own export changes nothing.** -/
theorem isIdentity_iff : IsIdentity env content.rows ↔ Complete env content.rows :=
  ⟨complete_of_isIdentity content, isIdentity_of_complete content⟩

end Main

/-! ### An installation with a provider -/

/-- Python on one time. -/
def Python.sample : Python Unit Unit where
  isoformat _ := "2026-01-01T00:00:00"
  fromisoformat s := if s = "2026-01-01T00:00:00" then some () else none
  fromisoformat_isoformat _ := if_pos rfl
  isoformat_ne _ := by decide
  isZero _ := true
  int
    | .int n => some n
    | .bool b => some b.toInt
    | _ => none
  int_int _ := rfl

/-- PostgreSQL without constraints. -/
def Postgres.sample : Postgres Unit Unit where
  encode
    | _, .cell .null => some none
    | .boolean, .cell (.bool b) => some (some (.bool b))
    | .integer, .cell (.int n) => some (some (.int n))
    | .double, .cell (.float x) => some (some (.float x))
    | .text, .cell (.text s) => some (some (.text s))
    | .timestamp, .time t => some (some (.time t))
    | _, _ => none
  default _ _ := none
  accepts _ _ _ := true
  encode_null type := by cases type <;> rfl
  encode_param type v h := by
    cases type <;> cases v <;> first | rfl | cases h

/-- Tokens that show their key; those of the installation begin with `gAAAA`. -/
def sampleFernet : Secrets.Fernet Char where
  encrypt key _ plaintext := String.ofList (key :: plaintext.toList)
  decrypt key token :=
    match token.toList with
    | [] => none
    | c :: rest => if c = key then some (String.ofList rest) else none
  legacyDecrypt token :=
    if Secrets.startsWith token Secrets.fernetPrefix then
      some (String.ofList (token.toList.drop Secrets.fernetPrefix.toList.length))
    else none
  decrypt_encrypt key n plaintext := by simp
  encrypt_ne key n plaintext heq := by
    have hlen := congrArg (fun s : String => s.toList.length) heq
    simp at hlen

/-- An installation without keys that imports as tenant 1. -/
def Installation.sample : Installation Unit Unit Char where
  py := .sample
  pg := .sample
  fernet := sampleFernet
  unwrap _ := none
  fingerprint := some "5f0c"
  tenantId := 1
  isInt32_tenantId := rfl
  siteId := some 1
  tenantKeys := ["site_name"]
  secretKeys := []
  now := ()
  newKey _ := ("k1", 'a')
  wrapped _ := "a"
  draw _ := 0

/-- Rows by their values. -/
def sampleRows (entries : Table → List (List (String × Value Unit Unit))) : Rows Unit Unit :=
  fun t => (entries t).map fun row c => row.lookup c

def sampleContent (entries : Table → List (List (String × Value Unit Unit)))
    (h : ∀ t ∈ exportTables, ∀ row ∈ entries t, ∀ p ∈ row,
      ∃ c ∈ columns t, c.1 = p.1 ∧ c.2.fits p.2 = true) : Content Postgres.sample where
  rows := sampleRows entries
  fits t ht r hr c v hv := by
    obtain ⟨row, hrow, rfl⟩ := List.mem_map.mp hr
    obtain ⟨front, back, heq, -⟩ := List.lookup_eq_some_iff.mp hv
    have hmem : (c, v) ∈ row := heq ▸ List.mem_append_right _ List.mem_cons_self
    obtain ⟨⟨name, type⟩, hcolumn, rfl, hfits⟩ := h t ht row hrow _ hmem
    exact ⟨type, hcolumn, hfits⟩
  accepted _ _ _ _ _ _ := rfl

/-- A technician of a provider, who is an editor of tenant 1. -/
def providerEntries : Table → List (List (String × Value Unit Unit))
  | .providers => [[("id", .int 1), ("name", .text "MSP")]]
  | .owned .tenants => [[("id", .int 1), ("provider_id", .int 1)]]
  | .owned .users =>
    [[("id", .int 7), ("username", .text "ada"), ("password_hash", .text "$2b$12$"),
      ("role", .text "editor"), ("auth_source", .text "local"), ("created_at", .time ()),
      ("is_operator", .bool false)]]
  | .owned .tenantMemberships =>
    [[("user_id", .int 7), ("tenant_id", .int 1), ("role", .text "editor"),
      ("created_at", .time ())]]
  | .owned .providerMemberships =>
    [[("user_id", .int 7), ("provider_id", .int 1), ("role", .text "provider_tech"),
      ("created_at", .time ())]]
  | _ => []

def providerContent : Content Postgres.sample := sampleContent providerEntries (by decide)

/-- **The membership of a provider is lost.** -/
theorem not_isIdentity_provider : ¬IsIdentity Installation.sample providerContent.rows := by
  rintro ⟨-, hsame⟩
  have hlost : ((importBackup Installation.sample (exportBackup .sample providerContent.rows)
      providerContent.rows).1 (.owned .providerMemberships)).length = 0 := by
    decide +kernel
  have hkept : (providerContent.rows (.owned .providerMemberships)).length = 1 := by
    decide
  rw [hsame _ (by decide), hkept] at hlost
  cases hlost

end Nodeglow.Backup
