import Nodeglow.Backend.Backup.Restore
import Nodeglow.Foundation.Fallible

/-!
# Secrets under the installation's key

What the last step of an import does with the secrets of the tenants that a backup names. A value
under the installation's key, or a plain secret setting, is encrypted under the tenant's key; every
other value stays, also one that does not decrypt. A tenant without keys gets one.

The step raises where something has to be moved and the tenant's keys were destroyed, or where its
active key does not unwrap and there is a value that can be moved. What it does for one tenant makes
no difference to another one.

## Main results

* `foldlM_of_settled`, `settled_of_foldlM` — exactly when nothing changes.
* `exists_reencryptAll_iff` — exactly when the step does not raise.

Source: `backend/services/tenant_keys.py`, lines 277–331, 440–485 and 517–562.
-/

namespace Nodeglow.Backup

open Relational Fallible

variable {φ δ K : Type} {env : Installation φ δ K} {tid : ℤ}
  {key : String × Option K} {s : SecretColumn} {r r' : Row φ δ} {rows rows' : Rows φ δ}

/-! ### One row -/

/-- The secret of a row is not under a tenant's key. -/
def isLegacyRow (s : SecretColumn) (r : Row φ δ) : Bool := (Row.text? r s.column).any isLegacy

theorem isLegacyRow_of_isPending (h : isPending env tid s r = true) : isLegacyRow s r = true :=
  (Bool.and_eq_true_iff.mp h).2

theorem isLegacy_sealed (token : String) (keyId : String) :
    isLegacy (Secrets.formatPrefix ++ keyId ++ ":" ++ token) = false := by
  have hne : Secrets.formatPrefix ++ keyId ++ ":" ++ token ≠ "" := by
    intro heq
    have hlen := congrArg (fun s : String => s.toList.length) heq
    simp [Secrets.formatPrefix, String.toList_append] at hlen
  simp [isLegacy, Secrets.isV2, Secrets.startsWith, String.toList_append, List.append_assoc, hne]

/-- **What becomes of a row**: nothing that can be moved leaves it as it is; else its secret is
under the tenant's key, and nothing else is changed. -/
theorem reencryptRow_cases (h : reencryptRow env tid key s r = .ok r') :
    (r' = r ∧ (isPending env tid s r = true → plaintext env s r = none)) ∨
      isLegacyRow s r = true ∧ isLegacyRow s r' = false ∧
        ∃ v, r' = Function.update r s.column v := by
  unfold reencryptRow at h
  split at h
  · rename_i hpending
    split at h
    · rename_i hnone
      exact .inl ⟨(Except.ok.inj h).symm, fun _ => hnone⟩
    · cases h
    · obtain rfl := Except.ok.inj h
      refine .inr ⟨isLegacyRow_of_isPending hpending, ?_, _, rfl⟩
      simp [isLegacyRow, Row.text?, isLegacy_sealed]
  · rename_i hpending
    exact .inl ⟨(Except.ok.inj h).symm, fun hp => absurd hp hpending⟩

theorem reencryptRow_of_none (h : isPending env tid s r = true → plaintext env s r = none) :
    reencryptRow env tid key s r = .ok r := by
  unfold reencryptRow
  split
  · rename_i hpending
    rw [h hpending]
  · rfl

/-! ### Several rows -/

/-- The values of a column that are not under a tenant's key. -/
def columnCount (s : SecretColumn) (l : List (Row φ δ)) : ℕ := l.countP (isLegacyRow s)

/-- **The rows of a column.** Of the values under the installation's key none is added, and where
none is moved nothing is changed. -/
theorem columnCount_mapM {l l' : List (Row φ δ)}
    (h : l.mapM (reencryptRow env tid key s) = .ok l') :
    columnCount s l' ≤ columnCount s l ∧
      (columnCount s l' = columnCount s l →
        l' = l ∧ ∀ r ∈ l, isPending env tid s r = true → plaintext env s r = none) := by
  induction l generalizing l' with
  | nil =>
    obtain rfl := Except.ok.inj h
    exact ⟨Nat.le_refl _, fun _ => ⟨rfl, fun r hr => by cases hr⟩⟩
  | cons r l ih =>
    obtain ⟨r', rest, hrow, hrest, rfl⟩ := mapM_cons_eq_ok.mp h
    obtain ⟨hle, hsame⟩ := ih hrest
    simp only [columnCount, List.countP_cons] at hle hsame ⊢
    rcases reencryptRow_cases hrow with ⟨rfl, hnone⟩ | ⟨hbefore, hafter, -⟩
    · refine ⟨by omega, fun heq => ?_⟩
      obtain ⟨hrest, hall⟩ := hsame (by omega)
      exact ⟨by rw [hrest], List.forall_mem_cons.mpr ⟨hnone, hall⟩⟩
    · rw [hbefore, hafter]
      simp only [if_true, Bool.false_eq_true, if_false]
      exact ⟨by omega, fun heq => by omega⟩

theorem mapM_of_none {l : List (Row φ δ)}
    (h : ∀ r ∈ l, isPending env tid s r = true → plaintext env s r = none) :
    l.mapM (reencryptRow env tid key s) = .ok l :=
  mapM_eq_self fun r hr => reencryptRow_of_none (h r hr)

/-! ### The secrets of a tenant -/

/-- The values of all columns that are not under a tenant's key. -/
def legacyCount (rows : Rows φ δ) : ℕ :=
  (secretColumns.map fun s => columnCount s (rows s.table)).sum

/-- None of the values that are not yet under a tenant's key can be moved. -/
def NoneMovable (env : Installation φ δ K) (tid : ℤ) (rows : Rows φ δ) : Prop :=
  ∀ s ∈ secretColumns, ∀ r ∈ rows s.table, isPending env tid s r = true → plaintext env s r = none

theorem reencryptColumn_eq_ok (h : reencryptColumn env tid key rows s = .ok rows') :
    ∃ l, (rows s.table).mapM (reencryptRow env tid key s) = .ok l ∧
      rows' = Function.update rows s.table l := by
  unfold reencryptColumn at h
  cases hmap : (rows s.table).mapM (reencryptRow env tid key s) with
  | error e =>
    rw [hmap] at h
    cases h
  | ok l =>
    rw [hmap] at h
    exact ⟨l, rfl, (Except.ok.inj h).symm⟩

theorem legacyCount_update (hs : s ∈ secretColumns) (l : List (Row φ δ)) :
    legacyCount (Function.update rows s.table l) + columnCount s (rows s.table) =
      legacyCount rows + columnCount s l := by
  simp only [secretColumns, List.mem_cons, List.not_mem_nil, or_false] at hs
  rcases hs with rfl | rfl | rfl <;>
  · simp [legacyCount, secretColumns, Function.update]
    omega

/-- What one column does to the number of values. -/
theorem legacyCount_column (hs : s ∈ secretColumns)
    (h : reencryptColumn env tid key rows s = .ok rows') :
    legacyCount rows' ≤ legacyCount rows ∧
      (legacyCount rows' = legacyCount rows → rows' = rows ∧
        ∀ r ∈ rows s.table, isPending env tid s r = true → plaintext env s r = none) := by
  obtain ⟨l, hmap, rfl⟩ := reencryptColumn_eq_ok h
  obtain ⟨hle, hsame⟩ := columnCount_mapM hmap
  have hcount : _ = legacyCount rows + _ := legacyCount_update hs l
  refine ⟨by omega, fun heq => ?_⟩
  obtain ⟨rfl, hnone⟩ := hsame (by omega)
  exact ⟨Function.update_eq_self _ _, hnone⟩

theorem legacyCount_columns {l : List SecretColumn} (hl : l ⊆ secretColumns)
    (h : l.foldlM (reencryptColumn env tid key) rows = .ok rows') :
    legacyCount rows' ≤ legacyCount rows ∧
      (legacyCount rows' = legacyCount rows → rows' = rows ∧
        ∀ s ∈ l, ∀ r ∈ rows s.table, isPending env tid s r = true → plaintext env s r = none) := by
  induction l generalizing rows with
  | nil =>
    obtain rfl := Except.ok.inj h
    exact ⟨Nat.le_refl _, fun _ => ⟨rfl, fun s hs => by cases hs⟩⟩
  | cons s l ih =>
    obtain ⟨between, hcolumn, hrest⟩ := foldlM_cons_eq_ok.mp h
    obtain ⟨hle, hsame⟩ := legacyCount_column (hl List.mem_cons_self) hcolumn
    obtain ⟨hle', hsame'⟩ := ih (fun x hx => hl (List.mem_cons_of_mem s hx)) hrest
    refine ⟨by omega, fun heq => ?_⟩
    obtain ⟨rfl, hs⟩ := hsame (by omega)
    obtain ⟨rfl, hall⟩ := hsame' (by omega)
    exact ⟨rfl, List.forall_mem_cons.mpr ⟨hs, hall⟩⟩

theorem reencrypt_of_noneMovable (h : NoneMovable env tid rows) :
    reencrypt env tid key rows = .ok rows := by
  refine foldlM_eq_self fun s hs => ?_
  rw [reencryptColumn, mapM_of_none (h s hs)]
  exact congrArg Except.ok (Function.update_eq_self _ _)

section Order

variable [LinearOrder δ]

/-- Nothing of a tenant is moved, and no key is created for it. -/
def Settled (env : Installation φ δ K) (tid : ℤ) (rows : Rows φ δ) : Prop :=
  hasPending env tid rows = false ∨
    (loadKeys env tid rows).active.isSome = true ∧ NoneMovable env tid rows

theorem reencryptLegacy_of_settled (h : Settled env tid rows) :
    reencryptLegacy env rows tid = .ok rows := by
  unfold reencryptLegacy
  dsimp only
  split
  · rfl
  · rename_i hpending
    obtain ⟨hactive, hnone⟩ := h.resolve_left hpending
    obtain ⟨key, hkey⟩ := Option.isSome_iff_exists.mp hactive
    rw [hkey]
    exact reencrypt_of_noneMovable hnone

end Order

/-- The other tables stay. -/
theorem reencrypt_apply_of_ne {t : Table} (ht : ∀ s ∈ secretColumns, t ≠ s.table)
    (h : reencrypt env tid key rows = .ok rows') : rows' t = rows t := by
  refine rel_of_foldlM (P := fun a b : Rows φ δ => b t = a t) (fun _ => rfl)
    (fun _ _ _ hab hbc => hbc.trans hab) (fun s hs a b hcolumn => ?_) h
  obtain ⟨l, -, rfl⟩ := reencryptColumn_eq_ok hcolumn
  exact Function.update_of_ne (ht s hs) _ _

theorem tenantKeys_ne_of_mem (hs : s ∈ secretColumns) : .owned .tenantKeys ≠ s.table := by
  revert s
  decide

section Order

variable [LinearOrder δ]

/-- A tenant gets its first key. -/
def withNewKey (env : Installation φ δ K) (tid : ℤ) (rows : Rows φ δ) : Rows φ δ :=
  Function.update rows (.owned .tenantKeys) (rows (.owned .tenantKeys) ++ [newKeyRow env tid])

/-- **What `reencrypt_legacy` does.** -/
theorem reencryptLegacy_cases (h : reencryptLegacy env rows tid = .ok rows') :
    (rows' = rows ∧ hasPending env tid rows = false) ∨
      (∃ key, (loadKeys env tid rows).active = some key ∧ reencrypt env tid key rows = .ok rows') ∨
      ∃ key, reencrypt env tid key (withNewKey env tid rows) = .ok rows' := by
  unfold reencryptLegacy at h
  dsimp only at h
  split at h
  · rename_i hpending
    exact .inl ⟨(Except.ok.inj h).symm, hpending⟩
  · split at h
    · rename_i key hkey
      exact .inr (.inl ⟨key, hkey, h⟩)
    · split at h
      · cases h
      · exact .inr (.inr ⟨_, h⟩)

/-- The tables without secrets and keys stay. -/
theorem reencryptLegacy_apply_of_ne {t : Table} (ht : ∀ s ∈ secretColumns, t ≠ s.table)
    (hkeys : t ≠ .owned .tenantKeys) (h : reencryptLegacy env rows tid = .ok rows') :
    rows' t = rows t := by
  rcases reencryptLegacy_cases h with ⟨rfl, -⟩ | ⟨key, -, hkey⟩ | ⟨key, hkey⟩
  · rfl
  · exact reencrypt_apply_of_ne ht hkey
  · rw [reencrypt_apply_of_ne ht hkey, withNewKey, Function.update_of_ne hkeys]

/-- **Nothing is undone**: no value goes back under the installation's key, and no key is removed.
A tenant that is not settled makes a difference. -/
theorem legacyCount_reencryptLegacy (h : reencryptLegacy env rows tid = .ok rows') :
    legacyCount rows' ≤ legacyCount rows ∧
      (rows (.owned .tenantKeys)).length ≤ (rows' (.owned .tenantKeys)).length ∧
      (legacyCount rows' = legacyCount rows →
        (rows' (.owned .tenantKeys)).length = (rows (.owned .tenantKeys)).length →
          rows' = rows ∧ Settled env tid rows) := by
  rcases reencryptLegacy_cases h with ⟨rfl, hpending⟩ | ⟨key, hactive, hkey⟩ | ⟨key, hkey⟩
  · exact ⟨Nat.le_refl _, Nat.le_refl _, fun _ _ => ⟨rfl, .inl hpending⟩⟩
  · obtain ⟨hle, hsame⟩ := legacyCount_columns (List.Subset.refl _) hkey
    have hkeys := reencrypt_apply_of_ne (fun s hs => tenantKeys_ne_of_mem hs) hkey
    refine ⟨hle, Nat.le_of_eq (congrArg List.length hkeys.symm), fun heq _ => ?_⟩
    obtain ⟨hrows, hnone⟩ := hsame heq
    exact ⟨hrows, .inr ⟨Option.isSome_of_eq_some hactive, hnone⟩⟩
  · obtain ⟨hle, -⟩ := legacyCount_columns (List.Subset.refl _) hkey
    have hkeys := reencrypt_apply_of_ne (fun s hs => tenantKeys_ne_of_mem hs) hkey
    have hcount : legacyCount (withNewKey env tid rows) = legacyCount rows := by
      simp [legacyCount, secretColumns, withNewKey, Function.update]
    have hlength : (rows' (.owned .tenantKeys)).length =
        (rows (.owned .tenantKeys)).length + 1 := by
      rw [hkeys, withNewKey, Function.update_self, List.length_append, List.length_singleton]
    exact ⟨hcount ▸ hle, by omega, fun _ heq => by omega⟩

/-! ### All tenants -/

theorem foldlM_of_settled {tids : List ℤ} (h : ∀ tid ∈ tids, Settled env tid rows) :
    tids.foldlM (reencryptLegacy env) rows = .ok rows :=
  foldlM_eq_self fun tid htid => reencryptLegacy_of_settled (h tid htid)

theorem reencryptAll_apply_of_ne {t : Table} (ht : ∀ s ∈ secretColumns, t ≠ s.table)
    (hkeys : t ≠ .owned .tenantKeys) {tids : List ℤ}
    (h : tids.foldlM (reencryptLegacy env) rows = .ok rows') : rows' t = rows t :=
  rel_of_foldlM (P := fun a b : Rows φ δ => b t = a t) (fun _ => rfl)
    (fun _ _ _ hab hbc => hbc.trans hab)
    (fun _ _ _ _ hstep => reencryptLegacy_apply_of_ne ht hkeys hstep) h

/-- **Where nothing is changed**, every tenant is settled. -/
theorem settled_of_foldlM {tids : List ℤ}
    (h : tids.foldlM (reencryptLegacy env) rows = .ok rows') :
    legacyCount rows' ≤ legacyCount rows ∧
      (rows (.owned .tenantKeys)).length ≤ (rows' (.owned .tenantKeys)).length ∧
      (legacyCount rows' = legacyCount rows →
        (rows' (.owned .tenantKeys)).length = (rows (.owned .tenantKeys)).length →
          ∀ tid ∈ tids, Settled env tid rows) := by
  induction tids generalizing rows with
  | nil =>
    obtain rfl := Except.ok.inj h
    exact ⟨Nat.le_refl _, Nat.le_refl _, fun _ _ tid htid => by cases htid⟩
  | cons tid tids ih =>
    obtain ⟨between, hstep, hrest⟩ := foldlM_cons_eq_ok.mp h
    obtain ⟨hle, hlength, hsame⟩ := legacyCount_reencryptLegacy hstep
    obtain ⟨hle', hlength', hall⟩ := ih hrest
    refine ⟨by omega, by omega, fun hcount hkeys => ?_⟩
    obtain ⟨rfl, hsettled⟩ := hsame (by omega) (by omega)
    exact List.forall_mem_cons.mpr ⟨hsettled, hall (by omega) (by omega)⟩

end Order

/-! ### One tenant and another -/

/-- The rows of a table that belong to a tenant. -/
def tenantRows (tid : ℤ) (t : Table) (rows : Rows φ δ) : List (Row φ δ) :=
  (rows t).filter fun r => Row.int? r "tenant_id" = some tid

theorem column_ne_tenantId (hs : s ∈ secretColumns) : "tenant_id" ≠ s.column := by
  revert s
  decide

theorem reencryptRow_other (hs : s ∈ secretColumns) (h : reencryptRow env tid key s r = .ok r') :
    Row.int? r' "tenant_id" = Row.int? r "tenant_id" ∧
      (r' = r ∨ Row.int? r "tenant_id" = some tid) := by
  unfold reencryptRow at h
  split at h
  · rename_i hpending
    have htenant : Row.int? r "tenant_id" = some tid := by
      simp only [isPending, isSecretOf, Bool.and_eq_true, decide_eq_true_eq] at hpending
      exact hpending.1.1
    refine ⟨?_, .inr htenant⟩
    split at h
    · rw [Except.ok.inj h]
    · cases h
    · obtain rfl := Except.ok.inj h
      simp only [Row.int?, Function.update_of_ne (column_ne_tenantId hs)]
  · obtain rfl := Except.ok.inj h
    exact ⟨rfl, .inl rfl⟩

/-- The rows of other tenants stay. -/
theorem filter_mapM {tid' : ℤ} (hne : tid' ≠ tid) (hs : s ∈ secretColumns) {l l' : List (Row φ δ)}
    (h : l.mapM (reencryptRow env tid key s) = .ok l') :
    (l'.filter fun r => Row.int? r "tenant_id" = some tid') =
      l.filter fun r => Row.int? r "tenant_id" = some tid' := by
  induction l generalizing l' with
  | nil =>
    obtain rfl := Except.ok.inj h
    rfl
  | cons r l ih =>
    obtain ⟨r', rest, hrow, hrest, rfl⟩ := mapM_cons_eq_ok.mp h
    obtain ⟨htenant, hsame⟩ := reencryptRow_other hs hrow
    rw [List.filter_cons, List.filter_cons, ih hrest, htenant]
    rcases hsame with rfl | hown
    · rfl
    · have hother : ¬(some tid = some tid') := fun heq => hne (Option.some.inj heq).symm
      simp [hown, hother]

theorem tenantRows_reencrypt {tid' : ℤ} (hne : tid' ≠ tid) {t : Table}
    (h : reencrypt env tid key rows = .ok rows') :
    tenantRows tid' t rows' = tenantRows tid' t rows := by
  refine rel_of_foldlM (P := fun a b : Rows φ δ => tenantRows tid' t b = tenantRows tid' t a)
    (fun _ => rfl) (fun _ _ _ hab hbc => hbc.trans hab) (fun s hs a b hcolumn => ?_) h
  obtain ⟨l, hmap, rfl⟩ := reencryptColumn_eq_ok hcolumn
  by_cases ht : t = s.table
  · subst ht
    rw [tenantRows, Function.update_self, filter_mapM hne hs hmap, tenantRows]
  · rw [tenantRows, Function.update_of_ne ht, tenantRows]

theorem noneMovable_congr
    (h : ∀ s ∈ secretColumns, tenantRows tid s.table rows' = tenantRows tid s.table rows) :
    NoneMovable env tid rows' ↔ NoneMovable env tid rows := by
  have hrows (rows : Rows φ δ) (s : SecretColumn) :
      (∀ r ∈ rows s.table, isPending env tid s r = true → plaintext env s r = none) ↔
        ∀ r ∈ tenantRows tid s.table rows,
          isPending env tid s r = true → plaintext env s r = none := by
    refine ⟨fun hall r hr => hall r (List.mem_filter.mp hr).1, fun hall r hr hpending => ?_⟩
    refine hall r (List.mem_filter.mpr ⟨hr, ?_⟩) hpending
    simp only [isPending, isSecretOf, Bool.and_eq_true] at hpending
    exact hpending.1.1
  refine forall₂_congr fun s hs => ?_
  rw [hrows rows', hrows rows, h s hs]

theorem hasPending_congr
    (h : ∀ s ∈ secretColumns, tenantRows tid s.table rows' = tenantRows tid s.table rows) :
    hasPending env tid rows' = hasPending env tid rows := by
  have hrows (rows : Rows φ δ) (s : SecretColumn) : (rows s.table).any (isPending env tid s) =
      (tenantRows tid s.table rows).any (isPending env tid s) := by
    rw [tenantRows, List.any_filter]
    refine List.any_congr rfl fun r => ?_
    simp only [isPending, isSecretOf]
    cases decide (Row.int? r "tenant_id" = some tid) <;> simp
  rw [Bool.eq_iff_iff, hasPending, hasPending, List.any_eq_true, List.any_eq_true]
  refine exists_congr fun s => and_congr_right fun hs => ?_
  rw [hrows rows', hrows rows, h s hs]

/-! ### When it raises -/

theorem exists_reencryptRow_iff : (∃ r', reencryptRow env tid key s r = .ok r') ↔
    (key.2 = none → isPending env tid s r = true → plaintext env s r = none) := by
  unfold reencryptRow
  split
  · rename_i hpending
    cases plaintext env s r <;> cases key.2 <;> simp [hpending]
  · rename_i hpending
    simp [hpending]

theorem exists_reencryptColumn_iff : (∃ rows', reencryptColumn env tid key rows s = .ok rows') ↔
    (key.2 = none →
      ∀ r ∈ rows s.table, isPending env tid s r = true → plaintext env s r = none) := by
  have hmap : (∃ rows', reencryptColumn env tid key rows s = .ok rows') ↔
      ∃ l, (rows s.table).mapM (reencryptRow env tid key s) = .ok l := by
    constructor
    · rintro ⟨rows', h⟩
      obtain ⟨l, hl, -⟩ := reencryptColumn_eq_ok h
      exact ⟨l, hl⟩
    · rintro ⟨l, hl⟩
      exact ⟨_, by rw [reencryptColumn, hl]; rfl⟩
  simp only [hmap, exists_mapM_iff, exists_reencryptRow_iff]
  exact ⟨fun h hkey r hr => h r hr hkey, fun h r hr hkey => h hkey r hr⟩

theorem table_ne_of_ne {s s' : SecretColumn} (hs : s ∈ secretColumns) (hs' : s' ∈ secretColumns)
    (hne : s ≠ s') : s'.table ≠ s.table := by
  have hall : ∀ s ∈ secretColumns, ∀ s' ∈ secretColumns, s ≠ s' → s'.table ≠ s.table := by
    decide
  exact hall s hs s' hs' hne

/-- Without a data key nothing can be moved. -/
theorem exists_reencrypt_iff : (∃ rows', reencrypt env tid key rows = .ok rows') ↔
    (key.2 = none → NoneMovable env tid rows) := by
  rw [reencrypt, exists_foldlM_iff (by decide) fun s _ rows => exists_reencryptColumn_iff]
  · exact ⟨fun h hkey s hs => h s hs hkey, fun h s hs hkey => h hkey s hs⟩
  · intro s hs s' hs' hne a b hcolumn
    have htable : s'.table ≠ s.table := table_ne_of_ne hs hs' hne
    obtain ⟨l, -, rfl⟩ := reencryptColumn_eq_ok hcolumn
    rw [Function.update_of_ne htable]

section Order

variable [LinearOrder δ]

/-- Nothing is in the way of moving the secrets of a tenant: there are none, or its active key
unwraps or is not needed, or it never had a key. -/
def CanReencrypt (env : Installation φ δ K) (tid : ℤ) (rows : Rows φ δ) : Prop :=
  hasPending env tid rows = true →
    match (loadKeys env tid rows).active with
    | some key => key.2 = none → NoneMovable env tid rows
    | none => (loadKeys env tid rows).destroyed = false

theorem exists_reencryptLegacy_iff :
    (∃ rows', reencryptLegacy env rows tid = .ok rows') ↔ CanReencrypt env tid rows := by
  unfold reencryptLegacy CanReencrypt
  dsimp only
  cases hasPending env tid rows with
  | false => simp
  | true =>
    simp only [Bool.true_eq_false, if_false, forall_const]
    cases (loadKeys env tid rows).active with
    | some key => exact exists_reencrypt_iff
    | none =>
      cases (loadKeys env tid rows).destroyed with
      | true => simp
      | false =>
        simp only [Bool.false_eq_true, if_false, iff_true]
        exact exists_reencrypt_iff.mpr fun hkey => by cases hkey

theorem loadKeys_congr (h : tenantRows tid (.owned .tenantKeys) rows' =
    tenantRows tid (.owned .tenantKeys) rows) : loadKeys env tid rows' = loadKeys env tid rows := by
  have hkeys : keyRows tid rows' = keyRows tid rows := h
  simp only [loadKeys, hkeys]

omit [LinearOrder δ] in
/-- The tables with secrets are among those of tenants. -/
theorem tenantRows_secretColumns
    (h : ∀ t ∈ tenantTables, tenantRows tid t rows' = tenantRows tid t rows) :
    ∀ s ∈ secretColumns, tenantRows tid s.table rows' = tenantRows tid s.table rows := by
  intro s hs
  refine h _ ?_
  revert s
  decide

theorem settled_congr
    (h : ∀ t ∈ tenantTables, tenantRows tid t rows' = tenantRows tid t rows) :
    Settled env tid rows' ↔ Settled env tid rows := by
  have hsecret := tenantRows_secretColumns h
  rw [Settled, Settled, hasPending_congr hsecret, noneMovable_congr hsecret,
    loadKeys_congr (h _ (by decide))]

theorem canReencrypt_congr
    (h : ∀ t ∈ tenantTables, tenantRows tid t rows' = tenantRows tid t rows) :
    CanReencrypt env tid rows' ↔ CanReencrypt env tid rows := by
  have hsecret := tenantRows_secretColumns h
  unfold CanReencrypt
  rw [hasPending_congr hsecret, noneMovable_congr hsecret, loadKeys_congr (h _ (by decide))]

/-- **One tenant makes no difference to another one.** -/
theorem tenantRows_reencryptLegacy {tid' : ℤ} (hne : tid' ≠ tid) (t : Table)
    (h : reencryptLegacy env rows tid = .ok rows') :
    tenantRows tid' t rows' = tenantRows tid' t rows := by
  rcases reencryptLegacy_cases h with ⟨rfl, -⟩ | ⟨key, -, hkey⟩ | ⟨key, hkey⟩
  · rfl
  · exact tenantRows_reencrypt hne hkey
  · rw [tenantRows_reencrypt hne hkey, withNewKey]
    by_cases ht : t = .owned .tenantKeys
    · subst ht
      simp [tenantRows, newKeyRow, Row.int?, hne.symm]
    · rw [tenantRows, Function.update_of_ne ht, tenantRows]

/-- **When the secrets of all tenants can be moved.** -/
theorem exists_reencryptAll_iff {tids : List ℤ} (htids : tids.Nodup) :
    (∃ rows', tids.foldlM (reencryptLegacy env) rows = .ok rows') ↔
      ∀ tid ∈ tids, CanReencrypt env tid rows :=
  exists_foldlM_iff htids (fun _ _ _ => exists_reencryptLegacy_iff)
    fun _ _ _ _ hne _ _ h => canReencrypt_congr fun t _ =>
      tenantRows_reencryptLegacy hne.symm t h

end Order

end Nodeglow.Backup
