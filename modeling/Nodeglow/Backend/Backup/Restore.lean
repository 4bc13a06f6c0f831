import Nodeglow.Backend.Backup.Tables
import Nodeglow.Backend.Secrets.TenantCipher

/-!
# Export and import of a backup

An export reads every table of the list. An import empties the tables that the backup names, and
what refers to them, and inserts their rows, by the columns of a table's first row; all this is one
transaction. When it is committed, three steps follow, for backups of older releases. Settings of a
tenant that are found among those of the installation are moved to the importing tenant. Users
without any membership get one in this tenant; where the backup has no memberships or no operators,
the role that a user has decides. Secrets under the installation's key are moved to the tenants'
keys.

Only the last of these steps, and the look-up of the tenants that the rows name, can raise. The
first two are committed before, if they have changed something that they count.

Sequences and the session's settings are not part of this file. Where an import returns, its caller
commits.

Source: `backend/services/backup.py`, lines 97–139 and 171–378; `backend/models/settings.py`, lines
205–238; `backend/services/memberships.py`, lines 26–28 and 107–146;
`backend/services/tenant_keys.py`, lines 277–331, 440–485 and 517–562.
-/

namespace Nodeglow.Backup

open Relational

variable {φ δ K : Type}

/-! ### Backups -/

/-- A row of a backup. -/
structure Dict (φ : Type) where
  entries : List (String × Cell φ)
  nodup : (entries.map Prod.fst).Nodup

def Dict.keys (d : Dict φ) : List String := d.entries.map Prod.fst

/-- `row.get(c)`. -/
def Dict.get (d : Dict φ) (c : String) : Cell φ := (d.entries.lookup c).getD .null

/-- A backup: what is read of `_meta`, and `tables`. -/
structure Document (φ : Type) where
  format : Option String
  secretKeyFingerprint : Option String
  tables : Table → Option (List (Dict φ))

/-- What an import relies on: the keys and the settings of the installation, the tenant of the
session, and what is drawn for the keys and the tokens that are new. -/
structure Installation (φ δ K : Type) where
  py : Python φ δ
  pg : Postgres φ δ
  fernet : Secrets.Fernet K
  /-- The data key of a row of `tenant_keys`, if it unwraps. -/
  unwrap : Row φ δ → Option K
  fingerprint : Option String
  tenantId : ℤ
  isInt32_tenantId : isInt32 tenantId = true
  siteId : Option ℤ
  /-- `tenant_keys` of the registry of settings. -/
  tenantKeys : List String
  secretKeys : List String
  now : δ
  newKey : ℤ → String × K
  wrapped : ℤ → String
  draw : Row φ δ → ℕ

def exportRow (py : Python φ δ) (t : Table) (r : Row φ δ) : Dict φ where
  entries := (columns t).map fun c => (c.1, serialize py (r c.1))
  nodup := by simpa [List.map_map, Function.comp_def] using nodup_columns t

/-- `export_backup`. -/
def exportBackup (env : Installation φ δ K) (rows : Rows φ δ) : Document φ where
  format := some "nodeglow-backup"
  secretKeyFingerprint := env.fingerprint
  tables t :=
    if t ∈ exportTables then
      some (if t.present then (rows t).map (exportRow env.py t) else [])
    else none

/-! ### The tables -/

section Tables

variable (env : Installation φ δ K)

/-- The names of the columns. -/
def columnNames (t : Table) : List String := (columns t).map Prod.fst

/-- `INSERT INTO t`; a column without a value gets its default. -/
def insertRow (t : Table) (values : List (String × Param φ δ)) (rows : List (Row φ δ)) :
    Option (List (Row φ δ)) := do
  let cells ← values.mapM fun value => do
    let type ← (columns t).lookup value.1
    (env.pg.encode type value.2).map (value.1, ·)
  let row : Row φ δ := fun c =>
    (cells.lookup c).getD (if c ∈ columnNames t then env.pg.default t c else none)
  if env.pg.accepts t rows row then some (rows ++ [row]) else none

/-- The tenant and the site of rows that have none. -/
def insertDefaults (t : Table) (first : Dict φ) : List (String × Cell φ) :=
  (if "tenant_id" ∈ columnNames t ∧ "tenant_id" ∉ first.keys then
      [("tenant_id", .int env.tenantId)] else []) ++
    if "site_id" ∈ columnNames t ∧ "site_id" ∉ first.keys then
      [("site_id", env.siteId.elim .null .int)] else []

/-- The parameters for a row, with those columns that the first row has. -/
def insertValues (t : Table) (first row : Dict φ) : List (String × Param φ δ) :=
  let defaults := insertDefaults env t first
  let cols := first.keys.filter (· ∈ columnNames t) ++ defaults.map Prod.fst
  cols.map fun c =>
    (c, match defaults.lookup c with
      | some default => .cell default
      | none => bindParam env.py (((columns t).lookup c).getD .text) (row.get c))

/-- The rows of a table that are inserted; none where no column of the first row is known. -/
def importedRows (doc : Document φ) (t : Table) : List (Dict φ) :=
  match doc.tables t with
  | none | some [] => []
  | some (first :: rest) =>
    if first.keys.filter (· ∈ columnNames t) = [] then [] else first :: rest

/-- The rows of a table are inserted. -/
def restoreTable (doc : Document φ) (rows : Rows φ δ) (t : Table) : Option (Rows φ δ) :=
  match importedRows doc t with
  | [] => some rows
  | first :: rest => do
    let inserted ← (first :: rest).foldlM
      (fun inserted row => insertRow env t (insertValues env t first row) inserted) (rows t)
    some (Function.update rows t inserted)

/-- The tables that are truncated. -/
def truncatedTables (doc : Document φ) : List Table :=
  exportTables.reverse.filter fun t => (doc.tables t).isSome && t.present

/-- `_restore_tables`. -/
def restoreTables (doc : Document φ) (rows : Rows φ δ) : Option (Rows φ δ) :=
  exportTables.foldlM (restoreTable env doc) (truncateAll references (truncatedTables doc) rows)

end Tables

/-! ### Values of rows -/

namespace Row

variable (r : Row φ δ) (c : String)

def int? : Option ℤ :=
  match r c with
  | some (.int n) => some n
  | _ => none

def text? : Option String :=
  match r c with
  | some (.text s) => some s
  | _ => none

def time? : Option δ :=
  match r c with
  | some (.time t) => some t
  | _ => none

def flag : Bool :=
  match r c with
  | some (.bool b) => b
  | _ => false

end Row

/-! ### Settings and memberships of older releases -/

section Legacy

variable (env : Installation φ δ K)

/-- The key of a setting is one of a tenant. -/
def isTenantSetting (r : Row φ δ) : Bool := (Row.text? r "key").any (· ∈ env.tenantKeys)

/-- A setting of the importing tenant. -/
def tenantSettingOf (r : Row φ δ) : Row φ δ := fun c =>
  if c = "tenant_id" then some (.int env.tenantId)
  else if c = "key" then r "key"
  else if c = "value" then r "value"
  else if c = "encrypted" then some (.bool (Row.flag r "encrypted"))
  else none

/-- `adopt_legacy_tenant_settings`, with the number that it returns. -/
def adoptLegacyTenantSettings (replace : Bool) (rows : Rows φ δ) : Rows φ δ × ℕ :=
  let moved := (rows .settings).filter (isTenantSetting env)
  if moved = [] ∧ replace = false then (rows, 0)
  else
    let kept := if replace then
        (rows (.owned .tenantSettings)).filter fun r => Row.int? r "tenant_id" ≠ some env.tenantId
      else rows (.owned .tenantSettings)
    let adopted := moved.foldl
      (fun settings r =>
        if settings.any fun s => Row.int? s "tenant_id" = some env.tenantId &&
            Row.text? s "key" = Row.text? r "key" then settings
        else settings ++ [tenantSettingOf env r]) kept
    (Function.update
      (Function.update rows .settings ((rows .settings).filter fun r => !isTenantSetting env r))
      (.owned .tenantSettings) adopted,
      if moved ≠ [] then moved.length else 1)

/-- `normalise_role(u.role or "admin", "admin")`. -/
def userRole (u : Row φ δ) : String :=
  let role := (Row.text? u "role").getD ""
  if role ∈ ["admin", "editor", "readonly"] then role else "admin"

/-- A new membership in the importing tenant. -/
def membershipOf (u : Row φ δ) : Row φ δ := fun c =>
  if c = "user_id" then u "id"
  else if c = "tenant_id" then some (.int env.tenantId)
  else if c = "role" then some (.text (userRole u))
  else if c = "created_at" then some (.time env.now)
  else none

/-- The membership of a user in the importing tenant. -/
def isMembershipOf (u m : Row φ δ) : Bool :=
  Row.int? m "user_id" = Row.int? u "id" && Row.int? m "tenant_id" = some env.tenantId

/-- The memberships, and how many were changed, after a user of `sync_from_users_role`. -/
def syncMembership (state : List (Row φ δ) × ℕ) (u : Row φ δ) : List (Row φ δ) × ℕ :=
  match state.1.find? (isMembershipOf env u) with
  | none => (state.1 ++ [membershipOf env u], state.2 + 1)
  | some m =>
    if Row.text? m "role" = some (userRole u) then state
    else
      (state.1.map fun m => if isMembershipOf env u m then
          Function.update m "role" (some (.text (userRole u))) else m, state.2 + 1)

/-- `sync_from_users_role`. -/
def syncFromUsersRole (rows : Rows φ δ) : Rows φ δ × ℕ :=
  let state :=
    (rows (.owned .users)).foldl (syncMembership env) (rows (.owned .tenantMemberships), 0)
  let users := (rows (.owned .users)).map fun u =>
    if env.tenantId = 1 then
      Function.update u "is_operator" (some (.bool (decide (userRole u = "admin"))))
    else u
  (Function.update (Function.update rows (.owned .tenantMemberships) state.1) (.owned .users) users,
    state.2)

/-- The users without any membership. -/
def strayUsers (rows : Rows φ δ) : List (Row φ δ) :=
  (rows (.owned .users)).filter fun u =>
    !(rows (.owned .tenantMemberships)).any fun m => Row.int? m "user_id" = Row.int? u "id"

/-- `backfill_memberships`. -/
def backfillMemberships (rows : Rows φ δ) : Rows φ δ × ℕ :=
  (Function.update rows (.owned .tenantMemberships)
      (rows (.owned .tenantMemberships) ++ (strayUsers rows).map (membershipOf env)),
    (strayUsers rows).length)

/-- `pre_042`: the backup has only the settings of the installation. -/
def isPre042 (doc : Document φ) : Bool :=
  (doc.tables .settings).isSome && (doc.tables (.owned .tenantSettings)).isNone

/-- `pre_043`: the backup has users, but no operators, or no memberships. -/
def isPre043 (doc : Document φ) : Bool :=
  match doc.tables (.owned .users) with
  | some (first :: _) =>
    decide ("is_operator" ∉ first.keys) ||
      ((doc.tables (.owned .tenantMemberships)).getD []).isEmpty
  | _ => false

end Legacy

/-! ### Secrets of older releases -/

section Keys

variable (env : Installation φ δ K) [LinearOrder δ]

/-- A column with secrets. -/
structure SecretColumn where
  table : Table
  column : String
  setting : Bool
deriving DecidableEq

/-- The columns of `_secret_rows`. -/
def secretColumns : List SecretColumn :=
  [⟨.owned .integrationConfigs, "config_json", false⟩, ⟨.owned .credentials, "data_json", false⟩,
    ⟨.owned .tenantSettings, "value", true⟩]

/-- The rows of `_secret_rows`. -/
def isSecretOf (tid : ℤ) (s : SecretColumn) (r : Row φ δ) : Bool :=
  Row.int? r "tenant_id" = some tid &&
    (!s.setting || Row.flag r "encrypted" || (Row.text? r "key").any (· ∈ env.secretKeys))

/-- A value that is not yet under a key of a tenant. -/
def isLegacy (value : String) : Bool := value ≠ "" && !Secrets.isV2 value

def isPending (tid : ℤ) (s : SecretColumn) (r : Row φ δ) : Bool :=
  isSecretOf env tid s r && (Row.text? r s.column).any isLegacy

/-- The plain text that `_reencrypt` finds in such a value, if it finds one. -/
def plaintext (s : SecretColumn) (r : Row φ δ) : Option String := do
  let value ← Row.text? r s.column
  match env.fernet.legacyDecrypt value with
  | some plain => some plain
  | none =>
    if s.setting && !Row.flag r "encrypted" && !Secrets.startsWith value Secrets.fernetPrefix then
      some value
    else none

/-- A row whose key is not destroyed. -/
def isLive (r : Row φ δ) : Bool :=
  (r "destroyed_at").isNone && (Row.text? r "wrapped_dek").any (· ≠ "")

/-- The order of the key rows. -/
def keyBefore (r r' : Row φ δ) : Prop :=
  match Row.time? r "created_at", Row.time? r' "created_at" with
  | some a, some b =>
    a < b ∨ a = b ∧ (Row.text? r "key_id").getD "" ≤ (Row.text? r' "key_id").getD ""
  | _, _ => True

instance (r r' : Row φ δ) : Decidable (keyBefore r r') := by
  unfold keyBefore
  split <;> infer_instance

/-- The keys of a tenant: the active one, with its data key if it unwraps, and whether there was one
and all were destroyed. -/
structure Keys (K : Type) where
  active : Option (String × Option K)
  destroyed : Bool

/-- The rows of a tenant's keys. -/
def keyRows (tid : ℤ) (rows : Rows φ δ) : List (Row φ δ) :=
  (rows (.owned .tenantKeys)).filter fun r => Row.int? r "tenant_id" = some tid

/-- `_load`. -/
def loadKeys (tid : ℤ) (rows : Rows φ δ) : Keys K :=
  let ordered := (keyRows tid rows).insertionSort keyBefore
  let active := (ordered.filter fun r => isLive r && (r "retired_at").isNone).getLast?
  { active := active.map fun r => ((Row.text? r "key_id").getD "", env.unwrap r)
    destroyed := active.isNone && (keyRows tid rows).any fun r => !isLive r }

/-- The row of a new key. -/
def newKeyRow (tid : ℤ) : Row φ δ := fun c =>
  if c = "tenant_id" then some (.int tid)
  else if c = "key_id" then some (.text (env.newKey tid).1)
  else if c = "kek_id" then some (.text "sk1")
  else if c = "wrapped_dek" then some (.text (env.wrapped tid))
  else if c = "created_at" then some (.time env.now)
  else none

/-- The body of the loop of `_reencrypt`, for values under the installation's key. -/
def reencryptRow (tid : ℤ) (key : String × Option K) (s : SecretColumn) (r : Row φ δ) :
    Except Secrets.KeyError (Row φ δ) :=
  if isPending env tid s r then
    match plaintext env s r, key.2 with
    | none, _ => .ok r
    | some _, none => .error .unavailable
    | some plain, some k =>
      .ok (Function.update r s.column (some (.text
        (Secrets.formatPrefix ++ key.1 ++ ":" ++ env.fernet.encrypt k (env.draw r) plain))))
  else .ok r

/-- The rows of a column. -/
def reencryptColumn (tid : ℤ) (key : String × Option K) (rows : Rows φ δ) (s : SecretColumn) :
    Except Secrets.KeyError (Rows φ δ) :=
  ((rows s.table).mapM (reencryptRow env tid key s)).map (Function.update rows s.table)

/-- `_reencrypt`. -/
def reencrypt (tid : ℤ) (key : String × Option K) (rows : Rows φ δ) :
    Except Secrets.KeyError (Rows φ δ) :=
  secretColumns.foldlM (reencryptColumn env tid key) rows

/-- A tenant has values that are not yet under its key. -/
def hasPending (tid : ℤ) (rows : Rows φ δ) : Bool :=
  secretColumns.any fun s => (rows s.table).any (isPending env tid s)

/-- `reencrypt_legacy`. -/
def reencryptLegacy (rows : Rows φ δ) (tid : ℤ) : Except Secrets.KeyError (Rows φ δ) :=
  let keys := loadKeys env tid rows
  if hasPending env tid rows = false then .ok rows
  else
    match keys.active with
    | some key => reencrypt env tid key rows
    | none =>
      if keys.destroyed then .error .destroyed
      else
        reencrypt env tid ((env.newKey tid).1, some (env.newKey tid).2)
          (Function.update rows (.owned .tenantKeys)
            (rows (.owned .tenantKeys) ++ [newKeyRow env tid]))

/-! ### Importing -/

/-- The tables whose rows say which tenants are restored. -/
def tenantTables : List Table :=
  [.owned .integrationConfigs, .owned .credentials, .owned .tenantSettings, .owned .tenantKeys]

/-- `int(r.get("tenant_id") or tenant_id)`. -/
def tenantOf (row : Dict φ) : Option ℤ :=
  let value := row.get "tenant_id"
  if value.truthy env.py then env.py.int value else some env.tenantId

/-- `sorted(restored_tenants)`; there are none where a value is no number. -/
def restoredTenants (doc : Document φ) : Option (List ℤ) := do
  let tids ← (tenantTables.flatMap fun t => (doc.tables t).getD []).mapM (tenantOf env)
  some (tids.dedup.insertionSort (· ≤ ·))

/-- `Tenant.id.in_(...)`: the driver takes numbers of the column's type, and not more of them than a
statement has arguments. -/
def selectable (tids : List ℤ) : Bool := tids.all isInt32 && tids.length ≤ 32767

/-- The tenants of an installation. -/
def tenantIds (rows : Rows φ δ) : List ℤ :=
  (rows (.owned .tenants)).filterMap fun r => Row.int? r "id"

/-- Why an import raises. -/
inductive ImportError
  | invalidFormat
  /-- A statement of the table restore fails. -/
  | database
  | tenantId
  /-- The tenants that are there cannot be queried. -/
  | tenants
  | keys (error : Secrets.KeyError)
deriving DecidableEq

/-- What an import returns. -/
structure Imported where
  imported : List (Table × ℕ)
  totalRows : ℕ
  warning : Option String

/-- The warning about a backup of another installation. -/
def keyWarning (doc : Document φ) : List String :=
  match doc.secretKeyFingerprint, env.fingerprint with
  | some backup, some current =>
    if backup ≠ "" ∧ current ≠ "" ∧ backup ≠ current then
      ["Backup was made with encryption key " ++ backup ++ ", this installation runs with " ++
        current ++ ": restored credentials will not decrypt until the original SECRET_KEY is " ++
        "configured."]
    else []
  | _, _ => []

/-- The warning about tenants that the installation does not have. -/
def missingWarning (missing : List ℤ) : List String :=
  if missing = [] then []
  else
    ["The backup holds data of tenant(s) " ++ ", ".intercalate (missing.map toString) ++
      ", which this installation does not have: their rows were restored, but they stay unused " ++
      "until such a tenant exists."]

/-- The settings and the memberships after a restore. -/
def syncLegacy (doc : Document φ) (rows : Rows φ δ) : Rows φ δ × ℕ :=
  let adopted := adoptLegacyTenantSettings env (isPre042 doc) rows
  let synced :=
    if isPre043 doc then syncFromUsersRole env adopted.1 else backfillMemberships env adopted.1
  (synced.1, adopted.2 + synced.2)

/-- `import_backup`, with what the installation then holds. -/
def importBackup (doc : Document φ) (rows : Rows φ δ) : Rows φ δ × Except ImportError Imported :=
  if doc.format ≠ some "nodeglow-backup" then (rows, .error .invalidFormat)
  else
    match restoreTables env doc rows with
    | none => (rows, .error .database)
    | some restored =>
      let synced := syncLegacy env doc restored
      -- The steps before are committed only if they have counted a change.
      let committed := if synced.2 ≠ 0 then synced.1 else restored
      match restoredTenants env doc with
      | none => (committed, .error .tenantId)
      | some tids =>
        if selectable tids = false then (committed, .error .tenants)
        else
          match (tids.filter (· ∈ tenantIds synced.1)).foldlM (reencryptLegacy env) synced.1 with
          | .error error => (committed, .error (.keys error))
          | .ok reencrypted =>
            let imported := exportTables.map fun t => (t, (importedRows doc t).length)
            let warnings := keyWarning env doc ++
              missingWarning (tids.filter (· ∉ tenantIds synced.1))
            (reencrypted,
              .ok
                { imported := imported
                  totalRows := (imported.map Prod.snd).sum
                  warning := if warnings = [] then none else some (" ".intercalate warnings) })

end Keys

end Nodeglow.Backup
