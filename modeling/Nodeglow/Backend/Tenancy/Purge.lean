import Nodeglow.Backend.Tenancy.TenantTables
import Nodeglow.Foundation.Run

/-!
# The purge of a tenant

A tenant whose deletion is due is purged: its data keys are destroyed, its rows in ClickHouse are
deleted, then those in PostgreSQL, table by table in batches, then its memberships with the users
who belong to no other tenant, and last the tenant. Each of these is a transaction of its own, so
that a run may end between any two of them; what a run does next is its stage. The next run begins
at the top and does again what has been done, but for the data keys, whose destruction the tenant's
row records.

The order of the tables is that of SQLAlchemy, reversed. What a run reads about the members of the
tenant it reads one after another, in the transaction that deletes the users.

Source: `ee/backend/nodeglow_ee/tenancy/purge.py`; `backend/services/tenant_keys.py`, lines 277–327,
544–562 and 645–683; `backend/services/clickhouse_client.py`, line 44.
-/

namespace Nodeglow.Tenancy.Purge

open Relational

/-- A row with the given columns; the others are NULL. -/
def row (columns : List (Column × Value)) : Record Column Value := fun c => columns.lookup c

/-- `tenant_id = t`. -/
def ofTenant (t : ℤ) (r : Record Column Value) : Bool := r .tenantId = some (.int t)

abbrev Db := Database Table Column Value

/-! ### The two databases -/

/-- `TENANT_TABLES` of ClickHouse. -/
inductive ClickHouseTable
  | syslogMessages | pingChecks | agentMetrics | bandwidthMetrics
  deriving DecidableEq, Repr

def clickhouseTables : List ClickHouseTable :=
  [.syslogMessages, .pingChecks, .agentMetrics, .bandwidthMetrics]

/-- What the purge deletes from. ClickHouse is a number of rows for each table and tenant; of a
table, the copy from before it had tenants may still be there. -/
structure Storage where
  db : Db
  clickhouse : ClickHouseTable → ℤ → ℕ
  leftovers : ClickHouseTable → Option (ℤ → ℕ)

/-! ### Statements -/

/-- `DEFAULT_TENANT_ID`. -/
def defaultTenantId : ℤ := 1

/-- `BATCH`. -/
def batchSize : ℕ := 5000

/-- `purge_order`, of the tables in the order that SQLAlchemy has sorted them. -/
def purgeOrder (sortedTables : List Table) : List Table :=
  sortedTables.reverse.filter (· ∈ tenantTables)

/-- The row of a tenant. -/
def tenantRow (t : ℤ) (db : Db) : Option (Record Column Value) :=
  (db .tenants).find? fun r => r .id = some (.int t)

/-- `delete_after` has come. -/
def deleteAfterPassed (now : ℚ) (r : Record Column Value) : Bool :=
  match r .deleteAfter with
  | some (.time deleteAfter) => deleteAfter ≤ now
  | _ => false

/-- Why `purge_tenant` refuses. -/
def refusal (t : ℤ) (now : ℚ) (db : Db) : Option String :=
  if t = defaultTenantId then some "the default tenant is never purged"
  else
    match tenantRow t db with
    | none => some ("tenant " ++ toString t ++ " does not exist")
    | some r =>
        if r .status ≠ some (.text "deleting") || !deleteAfterPassed now r then
          some ("tenant " ++ toString t ++ " is not due for purge")
        else none

/-- The key row of a tenant that `_create` or `destroy_tenant_key` adds. -/
def keyRow (t : ℤ) (keyId : String) (destroyedAt : Option ℚ) : Record Column Value
  | .tenantId => some (.int t)
  | .keyId => some (.text keyId)
  | .destroyedAt => destroyedAt.map .time
  | _ => none

/-- A key of the tenant that is not destroyed. -/
def liveKey (t : ℤ) (r : Record Column Value) : Bool := ofTenant t r && r .destroyedAt = none

/-- The tenant has a key that new values are encrypted with. -/
def hasActiveKey (t : ℤ) (db : Db) : Bool :=
  (db .tenantKeys).any fun r => liveKey t r && r .retiredAt = none

/-- The tenant's keys were destroyed. -/
def keysDestroyed (t : ℤ) (db : Db) : Bool :=
  !hasActiveKey t db && (db .tenantKeys).any fun r => ofTenant t r && r .destroyedAt ≠ none

/-- `reencrypt_legacy`: if there are values under the installation key, a tenant without a key gets
one. -/
def reencryptLegacy (t : ℤ) (legacy : Bool) (keyId : String) (db : Db) : Db :=
  if legacy && !hasActiveKey t db && !keysDestroyed t db then
    db.insert .tenantKeys (keyRow t keyId none)
  else db

/-- `destroy_tenant_key`. A tenant without a key gets a tombstone. -/
def destroyTenantKey (t : ℤ) (now : ℚ) (legacy : Bool) (keyId : String) (db : Db) : Db :=
  let moved := reencryptLegacy t legacy keyId db
  let destroyed := moved.update .tenantKeys (liveKey t)
    fun r => Function.update r .destroyedAt (some (.time now))
  if (moved .tenantKeys).any (liveKey t) || keysDestroyed t db then destroyed
  else destroyed.insert .tenantKeys (keyRow t keyId (some now))

/-- `_save_state` with the data keys destroyed. -/
def saveShred (t : ℤ) (db : Db) : Db :=
  db.update .tenants (fun r => r .id = some (.int t))
    fun r => Function.update r .cryptoShred (some (.text "destroyed"))

/-- Clear one self reference of the tenant's rows. -/
def clearReference (t : ℤ) (db : Db) (c : Table × Column) : Db :=
  db.update c.1 (fun r => ofTenant t r && (r c.2).isSome) fun r => Function.update r c.2 none

/-- Clear the self references of the tenant's rows, table by table. -/
def clearReferences (sortedTables : List Table) (t : ℤ) (db : Db) : Db :=
  ((purgeOrder sortedTables).flatMap fun x => (selfReferences x).map (x, ·)).foldl
    (clearReference t) db

/-- What `SELECT id … WHERE tenant_id = t` finds. -/
def tenantIds (t : ℤ) (x : Table) (db : Db) : List Value :=
  ((db x).filter (ofTenant t)).filterMap (· .id)

/-- The rows have one of the values in the column. -/
def valueIn (c : Column) (values : List Value) (r : Record Column Value) : Bool :=
  r c ∈ values.map some

/-- The values are what a `SELECT id … LIMIT` may give. -/
def IsBatch (t : ℤ) (x : Table) (db : Db) (ids : List Value) : Prop :=
  ids.Nodup ∧ ids ⊆ tenantIds t x db ∧ ids.length = min batchSize (tenantIds t x db).length

instance (t : ℤ) (x : Table) (db : Db) (ids : List Value) : Decidable (IsBatch t x db ids) :=
  inferInstanceAs (Decidable (_ ∧ _ ∧ _))

/-! ### Users -/

/-- What is read about a member. -/
inductive Question
  | memberships (userId : Value)
  | providerMemberships (userId : Value)
  | user (userId : Value)
  deriving DecidableEq, Repr

namespace Question

def about : Question → Value
  | .memberships userId => userId
  | .providerMemberships userId => userId
  | .user userId => userId

/-- The answer keeps the user. The memberships of the tenant are deleted by the transaction that
counts here, so that it counts the others. -/
def keeps (t : ℤ) (db : Db) : Question → Bool
  | .memberships userId =>
      (db .tenantMemberships).any fun r => !ofTenant t r && r .userId = some userId
  | .providerMemberships userId => (db .providerMemberships).any fun r => r .userId = some userId
  | .user userId =>
      !(db .users).any fun r => r .id = some userId && r .isOperator = some (.bool false)

end Question

/-- What is read about the members, one after another. -/
def questions (members : List Value) : List Question :=
  members.flatMap fun userId => [.memberships userId, .providerMemberships userId, .user userId]

/-- The users who are members of the tenant. -/
def members (t : ℤ) (db : Db) : List Value :=
  ((db .tenantMemberships).filter (ofTenant t)).filterMap (· .userId)

/-- The writes of `_purge_identities`. -/
def purgeIdentities (t : ℤ) (orphans : List Value) (db : Db) : Option Db := do
  let db ← schema.delete db .tenantMemberships (ofTenant t)
  let db := db.update .sessions (fun r => r .activeTenantId = some (.int t))
    fun r => Function.update r .activeTenantId none
  if orphans = [] then return db
  let db ← schema.delete db .sessions (valueIn .userId orphans)
  let db := db.update .tenantMemberships (valueIn .createdBy orphans)
    fun r => Function.update r .createdBy none
  schema.delete db .users (valueIn .id orphans)

/-- The end of `purge_tenant`: the tenant's row, and the entry in the audit log. -/
def purgeTenantRow (t : ℤ) (auditId : ℤ) (db : Db) : Option Db := do
  let db ← schema.delete db .tenants fun r => r .id = some (.int t)
  return db.insert .auditLogs (row [(.id, .int auditId)])

/-! ### A run of the purge -/

/-- What a run of the purge does next. -/
inductive Stage
  | idle
  | shred
  | saveShred
  | clickhouse (rest : List ClickHouseTable)
  | leftovers (rest : List ClickHouseTable)
  | clearReferences
  | tables (rest : List Table)
  | members
  /-- The transaction of `_purge_identities` has read the members; those that an answer has kept. -/
  | examine (members : List Value) (rest : List Question) (kept : List Value)
  | tenantRow
  | returned
  /-- A foreign key has refused a statement. -/
  | failed
  deriving DecidableEq, Repr

structure World where
  stores : Storage
  stage : Stage

inductive Event
  /-- `purge_tenant` is called. -/
  | start (now : ℚ)
  | shred (now : ℚ) (legacy : Bool) (keyId : String)
  | saveShred
  /-- A table is counted, and the rows deleted; so many are left. -/
  | clickhouse (left : ℕ)
  /-- Whether it could be read that the table is there, and how many rows the delete leaves. -/
  | leftover (readable : Bool) (left : ℕ)
  | clearReferences
  /-- A batch, of the ids that the query has found. -/
  | batch (ids : List Value)
  | members
  | examine
  | identities
  | tenantRow (auditId : ℤ)
  /-- A loop over tables is at its end. -/
  | done
  /-- The run ends where it is. -/
  | crash
  /-- Somebody else writes. -/
  | other (stores : Storage)

namespace World

/-- A transaction is committed, or a foreign key has refused it. -/
def commit (w : World) (result : Option Db) (next : Stage) : World :=
  match result with
  | some db => { stores := { w.stores with db := db }, stage := next }
  | none => { w with stage := .failed }

/-- One table of `purge_clickhouse`: the rows are deleted if there are any, and counted again. -/
def purgeClickhouse (t : ℤ) (w : World) (x : ClickHouseTable) (rest : List ClickHouseTable)
    (left : ℕ) : World :=
  if w.stores.clickhouse x t = 0 then { w with stage := .clickhouse rest }
  else
    { stores := { w.stores with
        clickhouse := Function.update w.stores.clickhouse x
          (Function.update (w.stores.clickhouse x) t left) }
      stage := if left = 0 then .clickhouse rest else .idle }

/-- One table from before there were tenants. -/
def purgeLeftover (t : ℤ) (w : World) (x : ClickHouseTable) (rest : List ClickHouseTable)
    (readable : Bool) (left : ℕ) : World :=
  match w.stores.leftovers x with
  | some rows =>
      if readable then
        { stores := { w.stores with
            leftovers := Function.update w.stores.leftovers x (some (Function.update rows t left)) }
          stage := .leftovers rest }
      else { w with stage := .leftovers rest }
  | none => { w with stage := .leftovers rest }

/-- One statement of `_delete_batched`, which has no value if the ids are not those of a batch. -/
def deleteBatch (t : ℤ) (w : World) (x : Table) (rest : List Table) (ids : List Value) :
    Option World :=
  if schema.primaryKey x = [.id] then
    if IsBatch t x w.stores.db ids then
      let n := ((w.stores.db x).filter (valueIn .id ids)).length
      some (w.commit (schema.delete w.stores.db x (valueIn .id ids))
        (.tables (if n < batchSize then rest else x :: rest)))
    else none
  else some (w.commit (schema.delete w.stores.db x (ofTenant t)) (.tables rest))

/-- The tenant's row at the start of a run says what is to be done first. -/
def start (t : ℤ) (now : ℚ) (w : World) : World :=
  match refusal t now w.stores.db with
  | some _ => w
  | none =>
      if (tenantRow t w.stores.db).bind (· .cryptoShred) = some (.text "destroyed") then
        { w with stage := .clickhouse clickhouseTables }
      else { w with stage := .shred }

/-- One event; it has no value if the event cannot be at this stage. -/
def step (sortedTables : List Table) (t : ℤ) (w : World) : Event → Option World
  | .start now => if w.stage = .idle then some (w.start t now) else none
  | .shred now legacy keyId =>
      if w.stage = .shred ∧
          ∀ r ∈ w.stores.db .tenantKeys, r .keyId ≠ some (.text keyId) then
        some (w.commit (some (destroyTenantKey t now legacy keyId w.stores.db)) .saveShred)
      else none
  | .saveShred =>
      if w.stage = .saveShred then
        some (w.commit (some (Purge.saveShred t w.stores.db)) (.clickhouse clickhouseTables))
      else none
  | .clickhouse left =>
      match w.stage with
      | .clickhouse (x :: rest) => some (w.purgeClickhouse t x rest left)
      | _ => none
  | .leftover readable left =>
      match w.stage with
      | .leftovers (x :: rest) => some (w.purgeLeftover t x rest readable left)
      | _ => none
  | .clearReferences =>
      if w.stage = .clearReferences then
        some (w.commit (some (Purge.clearReferences sortedTables t w.stores.db))
          (.tables (purgeOrder sortedTables)))
      else none
  | .batch ids =>
      match w.stage with
      | .tables (x :: rest) => w.deleteBatch t x rest ids
      | _ => none
  | .members =>
      if w.stage = .members then
        let members := Purge.members t w.stores.db
        some { w with stage := .examine members (questions members) [] }
      else none
  | .examine =>
      match w.stage with
      | .examine members (q :: rest) kept =>
          some { w with
            stage := .examine members rest (if q.keeps t w.stores.db then q.about :: kept else kept) }
      | _ => none
  | .identities =>
      match w.stage with
      | .examine members [] kept =>
          some (w.commit (purgeIdentities t (members.filter (· ∉ kept)) w.stores.db) .tenantRow)
      | _ => none
  | .tenantRow auditId =>
      if w.stage = .tenantRow ∧
          ∀ r ∈ w.stores.db .auditLogs, r .id ≠ some (.int auditId) then
        some (w.commit (purgeTenantRow t auditId w.stores.db) .returned)
      else none
  | .done =>
      match w.stage with
      | .clickhouse [] => some { w with stage := .leftovers clickhouseTables }
      | .leftovers [] => some { w with stage := .clearReferences }
      | .tables [] => some { w with stage := .members }
      | _ => none
  | .crash => some { w with stage := .idle }
  | .other stores => some { w with stores := stores }

end World

end Nodeglow.Tenancy.Purge
