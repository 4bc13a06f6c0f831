import Nodeglow.Backend.Backup.OwnExport

/-!
# A restore that fails

The tables are restored in one transaction: where a statement of it fails, nothing has changed. The
steps after it work on what is committed then, and two of them can raise. The tenants that the rows
name are read as numbers and queried, also where a row was inserted without its tenant; and moving
the secrets to the tenants' keys raises where the backup has the tombstone of a tenant's key, or a
key that does not unwrap here. So it can fail with all tables replaced, while the upgrade that does
the same work skips such a tenant.

## Main results

* `failureChangesNothing_iff` — exactly when a failed restore changes nothing.
* `not_failureChangesNothing` — a backup with a destroyed key.

Source: `backend/services/backup.py`, lines 171–378; `backend/services/tenant_keys.py`, lines
440–562.
-/

namespace Nodeglow.Backup

open Relational Fallible

variable {φ δ K : Type} {env : Installation φ δ K} {doc : Document φ} {rows restored : Rows φ δ}

/-! ### What a restore does not change -/

theorem restoreTable_apply_of_ne {t t' : Table} (hne : t' ≠ t)
    (h : restoreTable env doc rows t = some restored) : restored t' = rows t' := by
  unfold restoreTable at h
  split at h
  · rw [← Option.some.inj h]
  · obtain ⟨inserted, -, heq⟩ := Option.bind_eq_some_iff.mp h
    rw [← Option.some.inj heq, Function.update_of_ne hne]

/-- The tenants are not restored. -/
theorem restoreTables_tenants (h : restoreTables env doc rows = some restored) :
    restored (.owned .tenants) = rows (.owned .tenants) := by
  have hinserted (l : List Table) (hl : l ⊆ exportTables) (rows : Rows φ δ)
      (h : l.foldlM (restoreTable env doc) rows = some restored) :
      restored (.owned .tenants) = rows (.owned .tenants) := by
    induction l generalizing rows with
    | nil => rw [← Option.some.inj h]
    | cons t l ih =>
      rw [List.foldlM_cons] at h
      obtain ⟨between, hstep, hrest⟩ := Option.bind_eq_some_iff.mp h
      have hne : .owned .tenants ≠ t := by
        rintro rfl
        exact absurd (hl List.mem_cons_self) (by decide)
      rw [ih (fun x hx => hl (List.mem_cons_of_mem t hx)) between hrest,
        restoreTable_apply_of_ne hne hstep]
  rw [hinserted _ (List.Subset.refl _) _ h, truncateAll_apply, if_neg]
  rintro ⟨x, hx, hgroup⟩
  obtain ⟨hexport, hpresent⟩ := List.mem_filter.mp hx
  have hmem : .owned .tenants ∈ emptiedTables :=
    exists_cascadeGroup_iff.mp ⟨x, List.mem_filter.mpr
      ⟨List.mem_reverse.mp hexport, (Bool.and_eq_true_iff.mp hpresent).2⟩, hgroup⟩
  exact absurd hmem (by decide)

theorem tenantIds_syncLegacy : tenantIds (syncLegacy env doc rows).1 = tenantIds rows := by
  rw [tenantIds, syncLegacy_apply_of_ne (by decide), tenantIds]

/-! ### When a failed restore changes nothing -/

section Main

variable [LinearOrder δ]

/-- A restore that raises leaves everything as it was. -/
def FailureChangesNothing (env : Installation φ δ K) (doc : Document φ) (rows : Rows φ δ) : Prop :=
  ∀ e, (importBackup env doc rows).2 = .error e → (importBackup env doc rows).1 = rows

/-- What is committed before the last steps. -/
def committed (env : Installation φ δ K) (doc : Document φ) (restored : Rows φ δ) : Rows φ δ :=
  if (syncLegacy env doc restored).2 ≠ 0 then (syncLegacy env doc restored).1 else restored

/-- Every tenant that the backup names is a number that can be queried, and nothing is in the way of
moving the restored secrets of those tenants that the installation has. -/
def CanFinish (env : Installation φ δ K) (doc : Document φ) (rows restored : Rows φ δ) : Prop :=
  ∃ tids, restoredTenants env doc = some tids ∧ selectable tids = true ∧
    ∀ tid ∈ tids, tid ∈ tenantIds rows → CanReencrypt env tid (syncLegacy env doc restored).1

/-- What a restore does once its tables are committed. -/
theorem importBackup_of_restored (hformat : doc.format = some "nodeglow-backup")
    (hrestored : restoreTables env doc rows = some restored) :
    (CanFinish env doc rows restored → ∃ imported, (importBackup env doc rows).2 = .ok imported) ∧
      (¬CanFinish env doc rows restored → (∃ e, (importBackup env doc rows).2 = .error e) ∧
        (importBackup env doc rows).1 = committed env doc restored) := by
  have htenants : tenantIds (syncLegacy env doc restored).1 = tenantIds rows := by
    rw [tenantIds_syncLegacy, tenantIds, restoreTables_tenants hrestored, tenantIds]
  unfold importBackup
  rw [if_neg (not_not_intro hformat), hrestored]
  dsimp only
  rw [htenants]
  cases htids : restoredTenants env doc with
  | none =>
    refine ⟨fun hfinish => ?_, fun _ => ⟨⟨_, rfl⟩, rfl⟩⟩
    obtain ⟨tids, heq, -⟩ := hfinish
    rw [htids] at heq
    cases heq
  | some tids =>
    have hfinish : CanFinish env doc rows restored ↔ selectable tids = true ∧
        ∃ rows', (tids.filter (· ∈ tenantIds rows)).foldlM (reencryptLegacy env)
          (syncLegacy env doc restored).1 = .ok rows' := by
      rw [exists_reencryptAll_iff ((nodup_restoredTenants htids).filter _), CanFinish, htids]
      simp [and_imp]
    rw [hfinish]
    dsimp only
    cases hselect : selectable tids with
    | false => exact ⟨fun hok => absurd hok.1 Bool.false_ne_true, fun _ => ⟨⟨_, rfl⟩, rfl⟩⟩
    | true =>
    rw [if_neg Bool.true_eq_false.mp]
    cases (tids.filter (· ∈ tenantIds rows)).foldlM (reencryptLegacy env)
        (syncLegacy env doc restored).1 with
    | error e =>
      refine ⟨fun hok => ?_, fun _ => ⟨⟨_, rfl⟩, rfl⟩⟩
      obtain ⟨-, rows', heq⟩ := hok
      cases heq
    | ok reencrypted => exact ⟨fun _ => ⟨_, rfl⟩, fun h => absurd ⟨rfl, _, rfl⟩ h⟩

/-- **When a failed restore changes nothing.** -/
theorem failureChangesNothing_iff : FailureChangesNothing env doc rows ↔
    ∀ restored, doc.format = some "nodeglow-backup" →
      restoreTables env doc rows = some restored →
        CanFinish env doc rows restored ∨ committed env doc restored = rows := by
  constructor
  · intro hfailure restored hformat hrestored
    by_contra hnot
    obtain ⟨hfinish, hcommitted⟩ := not_or.mp hnot
    obtain ⟨⟨e, herror⟩, hrows⟩ := (importBackup_of_restored hformat hrestored).2 hfinish
    exact hcommitted (hrows.symm.trans (hfailure e herror))
  · intro hcondition e herror
    by_cases hformat : doc.format = some "nodeglow-backup"
    · cases hrestored : restoreTables env doc rows with
      | none =>
        unfold importBackup
        rw [if_neg (not_not_intro hformat), hrestored]
      | some restored =>
        obtain ⟨hdone, hfailed⟩ := importBackup_of_restored hformat hrestored
        by_cases hfinish : CanFinish env doc rows restored
        · obtain ⟨imported, hok⟩ := hdone hfinish
          rw [hok] at herror
          cases herror
        · rw [(hfailed hfinish).2]
          exact (hcondition restored hformat hrestored).resolve_left hfinish
    · unfold importBackup
      rw [if_pos hformat]

end Main

/-! ### A backup with a destroyed key -/

/-- The key of tenant 1 was destroyed, and a credential was left under the installation's key. -/
def shreddedBackup : Document Unit where
  format := some "nodeglow-backup"
  secretKeyFingerprint := some "5f0c"
  tables
    | .owned .tenantKeys =>
      some [⟨[("tenant_id", .int 1), ("key_id", .text "k1"), ("kek_id", .text "sk1"),
        ("wrapped_dek", .null), ("created_at", .text "2026-01-01T00:00:00"), ("retired_at", .null),
        ("destroyed_at", .text "2026-01-01T00:00:00")], by decide⟩]
    | .owned .credentials =>
      some [⟨[("id", .int 1), ("tenant_id", .int 1), ("name", .text "switch"),
        ("type", .text "snmp"), ("data_json", .text "gAAAAAold"),
        ("created_at", .text "2026-01-01T00:00:00")], by decide⟩]
    | _ => none

/-- An installation whose tenant 1 has two credentials. -/
def credentialEntries : Table → List (List (String × Value Unit Unit))
  | .owned .tenants => [[("id", .int 1)]]
  | .owned .credentials =>
    [[("id", .int 1), ("tenant_id", .int 1), ("data_json", .text "v2:k2:anew")],
      [("id", .int 2), ("tenant_id", .int 1), ("data_json", .text "v2:k2:aother")]]
  | _ => []

/-- **The credentials are gone**, though the restore has failed. -/
theorem not_failureChangesNothing :
    ¬FailureChangesNothing Installation.sample shreddedBackup (sampleRows credentialEntries) := by
  intro hfailure
  have hraises : (importBackup Installation.sample shreddedBackup
      (sampleRows credentialEntries)).2.isOk = false := by
    decide +kernel
  have hreplaced : ((importBackup Installation.sample shreddedBackup
      (sampleRows credentialEntries)).1 (.owned .credentials)).length = 1 := by
    decide +kernel
  cases hresult : (importBackup Installation.sample shreddedBackup
      (sampleRows credentialEntries)).2 with
  | ok imported =>
    rw [hresult] at hraises
    cases hraises
  | error e =>
    rw [hfailure e hresult] at hreplaced
    exact absurd hreplaced (by decide)

end Nodeglow.Backup
