import Mathlib.Algebra.Order.Field.Rat
import Nodeglow.Foundation.ForeignKeys

/-!
# The tables of a tenant

The tables whose rows belong to a tenant, those with users, their sessions and their memberships,
and the foreign keys between them. A key between two tables of the tenants has the tenant among its
columns, so that a row refers to rows of its own tenant only.

Of the columns only keys and references are here, and what the purge of a tenant reads and writes.

## Main results

* `foreignKey_of_tenantTable`, `foreignKey_to_tenants`, `foreignKey_to_users` — what the foreign
  keys are.

Source: `backend/models/`, the columns and `__table_args__` of all models;
`backend/models/tenant.py`, lines 55–107; `ee/backend/nodeglow_ee/tenancy/purge.py`, lines 68–73.
-/

namespace Nodeglow.Tenancy.Purge

open Relational

/-- The tables of tenants, and those of users and sessions. -/
inductive Table
  | agentInstallTokens | agents | aiUsageLogs | alertRules | apiKeys | auditLogs | backupHistory
  | backupJobs | credentials | discoveredPorts | fleetPatterns | hostBaselines | incidentEvents
  | incidents | integrationConfigs | logTemplates | maintenanceWindows | notificationLogs
  | pingHosts | precursorPatterns | sites | snapshots | snmpHostConfigs | snmpResults
  | subnetScanLogs | subnetScanSchedules | supportGrants | syslogViews | tenantKeys
  | tenantSettings | userPreferences
  | providerMemberships | sessions | tenantMemberships | tenants | users
  deriving DecidableEq, Repr

inductive Column
  | id | tenantId | activeTenantId | providerId | userId | createdBy | parentId | probeId | siteId
  | scheduleId | jobId | hostId | incidentId | templateId | credentialId
  | key | keyId | token
  | retiredAt | destroyedAt
  | isOperator
  | status | deleteAfter
  /-- The entry `crypto_shred` of the JSON in `purge_state`. -/
  | cryptoShred
  deriving DecidableEq, Repr

inductive Value
  | int (n : ℤ)
  | bool (b : Bool)
  | text (s : String)
  | time (t : ℚ)
  deriving DecidableEq, Repr

/-- `tenant_tables()`: the tables of the `TenantScoped` models. -/
def tenantTables : List Table :=
  [.agentInstallTokens, .agents, .aiUsageLogs, .alertRules, .apiKeys, .auditLogs, .backupHistory,
    .backupJobs, .credentials, .discoveredPorts, .fleetPatterns, .hostBaselines, .incidentEvents,
    .incidents, .integrationConfigs, .logTemplates, .maintenanceWindows, .notificationLogs,
    .pingHosts, .precursorPatterns, .sites, .snapshots, .snmpHostConfigs, .snmpResults,
    .subnetScanLogs, .subnetScanSchedules, .supportGrants, .syslogViews, .tenantKeys,
    .tenantSettings, .userPreferences]

def primaryKey : Table → List Column
  | .tenantKeys => [.tenantId, .keyId]
  | .tenantSettings => [.tenantId, .key]
  | .userPreferences => [.userId, .tenantId]
  | .tenantMemberships => [.userId, .tenantId]
  | .providerMemberships => [.userId, .providerId]
  | .sessions => [.token]
  | _ => [.id]

/-- The column `tenant_id` of `TenantScoped`. Only that of `tenant_keys` goes with the tenant. -/
def tenantReference (child : Table) : ForeignKey Table Column where
  child := child
  columns := [(.tenantId, .id)]
  parent := .tenants
  onDelete := if child = .tenantKeys then .cascade else .noAction

/-- A column that refers to a row of the same tenant. -/
def tenantFk (column : Column) (child parent : Table) (onDelete : OnDelete Column) :
    ForeignKey Table Column where
  child := child
  columns := [(.tenantId, .tenantId), (column, .id)]
  parent := parent
  onDelete := onDelete

/-- A column that refers to a table by its `id`. -/
def reference (column : Column) (child parent : Table) (onDelete : OnDelete Column) :
    ForeignKey Table Column where
  child := child
  columns := [(column, .id)]
  parent := parent
  onDelete := onDelete

def foreignKeys : List (ForeignKey Table Column) :=
  tenantTables.map tenantReference ++
    [tenantFk .siteId .agents .sites .noAction,
      tenantFk .siteId .agentInstallTokens .sites .noAction,
      tenantFk .jobId .backupHistory .backupJobs .cascade,
      tenantFk .hostId .discoveredPorts .pingHosts .cascade,
      tenantFk .incidentId .incidentEvents .incidents .noAction,
      tenantFk .probeId .integrationConfigs .agents (.setNull [.probeId]),
      tenantFk .templateId .precursorPatterns .logTemplates .noAction,
      tenantFk .parentId .pingHosts .pingHosts .noAction,
      tenantFk .probeId .pingHosts .agents (.setNull [.probeId]),
      tenantFk .siteId .pingHosts .sites .noAction,
      tenantFk .siteId .subnetScanSchedules .sites .noAction,
      tenantFk .scheduleId .subnetScanLogs .subnetScanSchedules .cascade,
      tenantFk .hostId .snmpHostConfigs .pingHosts .cascade,
      tenantFk .credentialId .snmpHostConfigs .credentials (.setNull [.credentialId]),
      tenantFk .hostId .snmpResults .pingHosts .cascade,
      reference .userId .userPreferences .users .cascade,
      reference .userId .sessions .users .noAction,
      reference .activeTenantId .sessions .tenants (.setNull [.activeTenantId]),
      reference .userId .tenantMemberships .users .cascade,
      reference .tenantId .tenantMemberships .tenants .cascade,
      reference .createdBy .tenantMemberships .users (.setNull [.createdBy]),
      reference .userId .providerMemberships .users .cascade]

def schema : Schema Table Column where
  primaryKey := primaryKey
  foreignKeys := foreignKeys
  cascade_leaf := by decide +kernel
  cleared_not_key := by decide +kernel

/-- `_self_references`. -/
def selfReferences (x : Table) : List Column :=
  (schema.keysBetween x x).flatMap fun k => (k.columns.map Prod.fst).filter (· ≠ .tenantId)

/-! ### What the foreign keys are -/

/-- What refers to a row of a tenant is of the same tenant, and refers to its own table with one of
the columns that are its self references. -/
theorem foreignKey_of_tenantTable :
    ∀ k ∈ schema.foreignKeys, k.parent ∈ tenantTables →
      k.child ∈ tenantTables ∧ (.tenantId, .tenantId) ∈ k.columns ∧
        (k.child = k.parent → ∃ c ∈ k.columns, c.1 ∈ selfReferences k.child) := by
  decide +kernel

/-- What refers to a tenant: the rows of the tenant, the memberships, and the sessions. -/
theorem foreignKey_to_tenants :
    ∀ k ∈ schema.foreignKeys, k.parent = .tenants →
      (k.columns = [(.tenantId, .id)] ∧ (k.child ∈ tenantTables ∨ k.child = .tenantMemberships)) ∨
        (k.child = .sessions ∧ k.onDelete = .setNull [.activeTenantId]) := by
  decide +kernel

/-- What refers to a user: sessions, memberships of both kinds, and preferences. -/
theorem foreignKey_to_users :
    ∀ k ∈ schema.foreignKeys, k.parent = .users →
      (k.columns = [(.userId, .id)] ∧
        ((k.child = .sessions ∧ k.onDelete = .noAction) ∨
          (k.child ∈ [.tenantMemberships, .providerMemberships, .userPreferences] ∧
            k.onDelete = .cascade))) ∨
        (k.columns = [(.createdBy, .id)] ∧ k.child = .tenantMemberships ∧
          k.onDelete = .setNull [.createdBy]) := by
  decide +kernel

theorem foreignKey_parent :
    ∀ k ∈ schema.foreignKeys,
      k.parent ≠ .tenantMemberships ∧ k.parent ≠ .sessions ∧ k.child ≠ .users := by
  decide +kernel

theorem ne_tenantId_of_mem_selfReferences {x : Table} {c : Column} (h : c ∈ selfReferences x) :
    c ≠ .tenantId := by
  obtain ⟨k, -, hc⟩ := List.mem_flatMap.mp h
  simpa using (List.mem_filter.mp hc).2

end Nodeglow.Tenancy.Purge
