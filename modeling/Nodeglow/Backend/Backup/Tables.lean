import Nodeglow.Backend.Tenancy.TenantTables
import Nodeglow.Foundation.Truncation

/-!
# The tables of a backup

A backup has the tables of a list that is kept by hand. Two of them were dropped long ago; a table
that is not of the list is not in a backup, but a restore empties it when it refers to one that is.
Of these there are two: the login sessions, and the memberships of providers.

A value of a column is written as JSON, where a time becomes a text, and is read again by the type
of the column. What Python makes of times and of values (`Python`), and what PostgreSQL takes for a
column and which rows it accepts (`Postgres`), is given.

## Main results

* `exists_cascadeGroup_iff` — the tables that a restore of all tables empties.
* `encode_bindParam_serialize` — a value that is exported and imported is the same.

Source: `backend/services/backup.py`, lines 18–56, 274–300 and 503–523; `backend/models/`, the
columns of the tables of a backup; `backend/models/tenant.py`, lines 124–212.
-/

namespace Nodeglow.Backup

open Relational

/-! ### Tables -/

/-- The tables of tenants and users, those of the installation, and two that were dropped. -/
inductive Table
  | owned (t : Tenancy.Purge.Table)
  | settings | snmpMibs | snmpOids | providers
  | pingResults | agentSnapshots
deriving DecidableEq, Repr

/-- `EXPORT_TABLES`. -/
def exportTables : List Table :=
  [.settings, .owned .users, .owned .tenantMemberships, .owned .tenantKeys, .owned .tenantSettings,
    .owned .userPreferences, .owned .pingHosts, .pingResults, .owned .integrationConfigs,
    .owned .snapshots, .owned .agents, .agentSnapshots, .owned .incidents, .owned .incidentEvents,
    .owned .alertRules, .owned .logTemplates, .owned .hostBaselines, .owned .precursorPatterns,
    .owned .credentials, .snmpMibs, .snmpOids, .owned .snmpHostConfigs, .owned .snmpResults,
    .owned .apiKeys, .owned .notificationLogs, .owned .discoveredPorts, .owned .auditLogs]

/-- `_table_exists`. -/
def Table.present (t : Table) : Bool := t ≠ .pingResults && t ≠ .agentSnapshots

/-- The foreign keys, by the table that refers and the one that it refers to. -/
def references : List (Table × Table) :=
  Tenancy.Purge.foreignKeys.map (fun k => (.owned k.child, .owned k.parent)) ++
    [(.owned .tenants, .providers), (.owned .auditLogs, .providers),
      (.owned .providerMemberships, .providers)]

inductive ColumnType
  | boolean | integer | double | text | timestamp
deriving DecidableEq, Repr

/-- The columns of the tables of a backup. -/
def columns : Table → List (String × ColumnType)
  | .settings =>
    [("key", .text), ("value", .text), ("encrypted", .boolean)]
  | .owned .users =>
    [("id", .integer), ("username", .text), ("password_hash", .text), ("role", .text),
      ("auth_source", .text), ("display_name", .text), ("created_at", .timestamp),
      ("is_operator", .boolean)]
  | .owned .tenantMemberships =>
    [("user_id", .integer), ("tenant_id", .integer), ("role", .text), ("created_at", .timestamp),
      ("created_by", .integer)]
  | .owned .tenantKeys =>
    [("tenant_id", .integer), ("key_id", .text), ("kek_id", .text), ("wrapped_dek", .text),
      ("created_at", .timestamp), ("retired_at", .timestamp), ("destroyed_at", .timestamp)]
  | .owned .tenantSettings =>
    [("tenant_id", .integer), ("key", .text), ("value", .text), ("encrypted", .boolean)]
  | .owned .userPreferences =>
    [("user_id", .integer), ("tenant_id", .integer), ("dashboard_seen_at", .timestamp),
      ("dashboard_layout", .text), ("updated_at", .timestamp)]
  | .owned .pingHosts =>
    [("id", .integer), ("tenant_id", .integer), ("name", .text), ("hostname", .text),
      ("enabled", .boolean), ("check_type", .text), ("port", .integer),
      ("latency_threshold_ms", .double), ("maintenance", .boolean),
      ("maintenance_until", .timestamp), ("ssl_expiry_days", .integer), ("port_error", .boolean),
      ("check_detail", .text), ("check_errors", .text), ("http_options", .text),
      ("ip_address", .text), ("source", .text), ("source_detail", .text), ("mac_address", .text),
      ("parent_id", .integer), ("probe_id", .integer), ("site_id", .integer),
      ("created_at", .timestamp)]
  | .owned .integrationConfigs =>
    [("id", .integer), ("tenant_id", .integer), ("type", .text), ("name", .text),
      ("config_json", .text), ("enabled", .boolean), ("cluster_group", .text),
      ("created_at", .timestamp), ("collector", .text), ("probe_id", .integer),
      ("config_rev", .integer)]
  | .owned .snapshots =>
    [("id", .integer), ("tenant_id", .integer), ("entity_type", .text), ("entity_id", .integer),
      ("timestamp", .timestamp), ("ok", .boolean), ("data_json", .text), ("error", .text),
      ("collected_by", .integer), ("collected_at", .timestamp)]
  | .owned .agents =>
    [("id", .integer), ("tenant_id", .integer), ("name", .text), ("hostname", .text),
      ("token", .text), ("platform", .text), ("arch", .text), ("agent_version", .text),
      ("enabled", .boolean), ("log_levels", .text), ("log_channels", .text),
      ("log_file_paths", .text), ("agent_log_level", .text), ("pending_command", .text),
      ("is_probe", .boolean), ("probe_interval_seconds", .integer),
      ("syslog_relay_enabled", .boolean), ("syslog_relay_port", .integer),
      ("syslog_relay_status", .text), ("watched_services", .text), ("service_states", .text),
      ("last_seen", .timestamp), ("created_at", .timestamp), ("site_id", .integer)]
  | .owned .incidents =>
    [("id", .integer), ("tenant_id", .integer), ("rule", .text), ("title", .text),
      ("severity", .text), ("status", .text), ("host_ids_hash", .text), ("host_ids", .text),
      ("created_at", .timestamp), ("updated_at", .timestamp), ("resolved_at", .timestamp),
      ("acknowledged_by", .text), ("postmortem", .text), ("postmortem_generated_at", .timestamp),
      ("feedback", .text), ("feedback_at", .timestamp), ("feedback_by", .text),
      ("precursor_template", .text)]
  | .owned .incidentEvents =>
    [("id", .integer), ("tenant_id", .integer), ("incident_id", .integer),
      ("timestamp", .timestamp), ("event_type", .text), ("summary", .text), ("detail", .text)]
  | .owned .alertRules =>
    [("id", .integer), ("tenant_id", .integer), ("name", .text), ("enabled", .boolean),
      ("source_type", .text), ("source_id", .integer), ("field_path", .text),
      ("operator", .text), ("threshold", .text), ("severity", .text), ("notify_channels", .text),
      ("message_template", .text), ("cooldown_minutes", .integer),
      ("required_consecutive", .integer), ("last_triggered_at", .timestamp),
      ("created_at", .timestamp)]
  | .owned .logTemplates =>
    [("id", .integer), ("tenant_id", .integer), ("template_hash", .text), ("template", .text),
      ("example", .text), ("count", .integer), ("first_seen", .timestamp),
      ("last_seen", .timestamp), ("noise_score", .integer), ("tags", .text),
      ("avg_rate_per_hour", .double), ("trend_direction", .text), ("trend_score", .double),
      ("severity_mode", .integer)]
  | .owned .hostBaselines =>
    [("id", .integer), ("tenant_id", .integer), ("host_key", .text), ("hour_of_day", .integer),
      ("day_of_week", .integer), ("avg_rate", .double), ("std_rate", .double),
      ("sample_count", .integer), ("avg_template_count", .double),
      ("std_template_count", .double), ("updated_at", .timestamp)]
  | .owned .precursorPatterns =>
    [("id", .integer), ("tenant_id", .integer), ("template_id", .integer),
      ("precedes_event", .text), ("confidence", .double), ("avg_lead_time_sec", .integer),
      ("min_lead_time_sec", .integer), ("max_lead_time_sec", .integer),
      ("occurrence_count", .integer), ("total_checked", .integer), ("updated_at", .timestamp)]
  | .owned .credentials =>
    [("id", .integer), ("tenant_id", .integer), ("name", .text), ("type", .text),
      ("data_json", .text), ("created_at", .timestamp)]
  | .snmpMibs =>
    [("id", .integer), ("name", .text), ("filename", .text), ("oid_count", .integer),
      ("raw_text", .text), ("uploaded_at", .timestamp)]
  | .snmpOids =>
    [("id", .integer), ("oid", .text), ("name", .text), ("mib_name", .text), ("syntax", .text),
      ("description", .text), ("is_table", .boolean)]
  | .owned .snmpHostConfigs =>
    [("id", .integer), ("tenant_id", .integer), ("host_id", .integer),
      ("credential_id", .integer), ("port", .integer), ("oids_json", .text),
      ("thresholds_json", .text), ("poll_interval", .integer), ("enabled", .boolean),
      ("last_poll", .timestamp), ("last_ok", .boolean)]
  | .owned .snmpResults =>
    [("id", .integer), ("tenant_id", .integer), ("host_id", .integer), ("timestamp", .timestamp),
      ("data_json", .text)]
  | .owned .apiKeys =>
    [("id", .integer), ("tenant_id", .integer), ("name", .text), ("key_hash", .text),
      ("prefix", .text), ("role", .text), ("enabled", .boolean), ("last_used", .timestamp),
      ("created_at", .timestamp), ("created_by", .text), ("note", .text), ("hash_algo", .text)]
  | .owned .notificationLogs =>
    [("id", .integer), ("tenant_id", .integer), ("timestamp", .timestamp), ("channel", .text),
      ("title", .text), ("message", .text), ("severity", .text), ("status", .text),
      ("error", .text)]
  | .owned .discoveredPorts =>
    [("id", .integer), ("tenant_id", .integer), ("host_id", .integer), ("port", .integer),
      ("protocol", .text), ("service", .text), ("status", .text), ("has_ssl", .boolean),
      ("ssl_issuer", .text), ("ssl_subject", .text), ("ssl_expiry_days", .integer),
      ("ssl_expiry_date", .text), ("ssl_status", .text), ("first_seen", .timestamp),
      ("last_seen", .timestamp), ("last_open", .boolean)]
  | .owned .auditLogs =>
    [("id", .integer), ("tenant_id", .integer), ("timestamp", .timestamp), ("user_id", .integer),
      ("username", .text), ("action", .text), ("target_type", .text), ("target_id", .integer),
      ("target_name", .text), ("details", .text), ("ip_address", .text),
      ("provider_id", .integer), ("acting_via", .text)]
  | _ => []

/-! ### Values -/

variable {φ δ : Type}

/-- A value of a column that is not NULL. -/
inductive Value (φ δ : Type)
  | bool (b : Bool)
  | int (n : ℤ)
  | float (x : φ)
  | text (s : String)
  | time (t : δ)
deriving DecidableEq

/-- A value of a backup; of a list or an object it only counts whether it is empty. -/
inductive Cell (φ : Type)
  | null
  | bool (b : Bool)
  | int (n : ℤ)
  | float (x : φ)
  | text (s : String)
  | compound (empty : Bool)
deriving DecidableEq

/-- A parameter of a statement. -/
inductive Param (φ δ : Type)
  | cell (c : Cell φ)
  | time (t : δ)

/-- A row of a table; NULL is no value. -/
abbrev Row (φ δ : Type) := Record String (Value φ δ)

/-- The rows of each table. -/
abbrev Rows (φ δ : Type) := Table → List (Row φ δ)

/-- The numbers of the type INTEGER. -/
def isInt32 (n : ℤ) : Bool := -2147483648 ≤ n && n ≤ 2147483647

/-- The values of a type. -/
def ColumnType.fits : ColumnType → Value φ δ → Bool
  | .boolean, .bool _ => true
  | .integer, .int n => isInt32 n
  | .double, .float _ => true
  | .text, .text _ => true
  | .timestamp, .time _ => true
  | _, _ => false

/-- Python's times: their texts, which have no `Z`, what is read from a text, without its offset;
and `int`, which may raise. -/
structure Python (φ δ : Type) where
  isoformat : δ → String
  fromisoformat : String → Option δ
  fromisoformat_isoformat : ∀ t, fromisoformat (isoformat t) = some t
  isoformat_ne : ∀ t, 'Z' ∉ (isoformat t).toList
  isZero : φ → Bool
  int : Cell φ → Option ℤ
  int_int : ∀ n, int (.int n) = some n

/-- The truth value of a cell in a Python condition. -/
def Cell.truthy (py : Python φ δ) : Cell φ → Bool
  | null => false
  | bool b => b
  | int n => n ≠ 0
  | float x => !py.isZero x
  | text s => s ≠ ""
  | compound empty => !empty

/-- `_serialize`. -/
def serialize (py : Python φ δ) : Option (Value φ δ) → Cell φ
  | none => .null
  | some (.bool b) => .bool b
  | some (.int n) => .int n
  | some (.float x) => .float x
  | some (.text s) => .text s
  | some (.time t) => .text (py.isoformat t)

/-- `value.replace("Z", "+00:00")`. -/
def replaceZ (s : String) : String :=
  String.ofList (s.toList.flatMap fun c => if c = 'Z' then "+00:00".toList else [c])

/-- `_parse_time`. -/
def parseTime (py : Python φ δ) (s : String) : Param φ δ :=
  match py.fromisoformat (replaceZ s) with
  | some t => .time t
  | none => .cell (.text s)

/-- The parameter for a value of a backup, by the type of its column. -/
def bindParam (py : Python φ δ) (type : ColumnType) : Cell φ → Param φ δ
  | .text s => if type = .timestamp then parseTime py s else .cell (.text s)
  | c => .cell c

/-- The parameter that a value is. -/
def Value.param : Value φ δ → Param φ δ
  | bool b => .cell (.bool b)
  | int n => .cell (.int n)
  | float x => .cell (.float x)
  | text s => .cell (.text s)
  | time t => .time t

/-- PostgreSQL and its driver: what a parameter becomes in a column, which may fail, but not for a
value that the column can have; the defaults of the columns; and whether a row is accepted beside
those that a table has. -/
structure Postgres (φ δ : Type) where
  encode : ColumnType → Param φ δ → Option (Option (Value φ δ))
  default : Table → Row φ δ
  accepts : Table → List (Row φ δ) → Row φ δ → Bool
  encode_null : ∀ type, encode type (.cell .null) = some none
  encode_param : ∀ type v, type.fits v = true → encode type v.param = some (some v)

/-- What an installation holds: every value is one of its column's type, and the rows of a table
have been accepted one after the other. -/
structure Content (pg : Postgres φ δ) where
  rows : Rows φ δ
  fits : ∀ t ∈ exportTables, ∀ r ∈ rows t, ∀ c v, r c = some v →
    ∃ type, (c, type) ∈ columns t ∧ type.fits v = true
  accepted : ∀ t ∈ exportTables, ∀ front r back, rows t = front ++ r :: back →
    pg.accepts t front r = true

/-! ### What the tables are -/

theorem nodup_columns (t : Table) : ((columns t).map Prod.fst).Nodup := by
  cases t with
  | owned t => cases t <;> decide
  | _ => decide

theorem columns_ne_nil {t : Table} (ht : t ∈ exportTables) (h : t.present = true) :
    columns t ≠ [] := by
  revert t
  decide

theorem nodup_exportTables : exportTables.Nodup := by
  decide

/-- The tables that a restore of all tables empties without filling them. -/
def cascaded : List Table := [.owned .sessions, .owned .providerMemberships]

/-- The tables of the list that there are, and those that are emptied with them. -/
def emptiedTables : List Table := exportTables.filter Table.present ++ cascaded

theorem isClosed_emptiedTables : IsClosed references emptiedTables := by
  unfold Relational.IsClosed
  decide +kernel

/-- **What a restore of all tables empties**: those of the list, the sessions, and the memberships
of providers. -/
theorem exists_cascadeGroup_iff {y : Table} :
    (∃ x ∈ exportTables.filter Table.present, y ∈ cascadeGroup references [x]) ↔
      y ∈ emptiedTables := by
  constructor
  · rintro ⟨x, hx, hmem⟩
    refine cascadeGroup_subset isClosed_emptiedTables ?_ hmem
    exact fun z hz => List.mem_append_left _ (List.mem_singleton.mp hz ▸ hx)
  · intro hmem
    rcases List.mem_append.mp hmem with hlist | hcascaded
    · exact ⟨y, hlist, subset_cascadeGroup [y] (List.mem_singleton_self y)⟩
    · have husers : (.owned .users : Table) ∈ cascadeGroup references [.owned .users] :=
        subset_cascadeGroup _ (List.mem_singleton_self _)
      have hkey : ∀ y ∈ cascaded, (y, (.owned .users : Table)) ∈ references := by
        decide +kernel
      exact ⟨.owned .users, by decide, isClosed_cascadeGroup _ _ (hkey y hcascaded) husers⟩

/-! ### A value, there and back -/

variable {py : Python φ δ} {pg : Postgres φ δ}

theorem replaceZ_of_notMem {s : String} (h : 'Z' ∉ s.toList) : replaceZ s = s := by
  have hflat (l : List Char) (hl : 'Z' ∉ l) :
      (l.flatMap fun c => if c = 'Z' then "+00:00".toList else [c]) = l := by
    induction l with
    | nil => rfl
    | cons c l ih =>
      rw [List.mem_cons, not_or] at hl
      rw [List.flatMap_cons, ih hl.2, if_neg (Ne.symm hl.1), List.singleton_append]
  rw [replaceZ, hflat _ h, String.ofList_toList]

/-- **A value, there and back**, in a column that can have it. -/
theorem encode_bindParam_serialize {type : ColumnType} {v : Option (Value φ δ)}
    (h : ∀ w ∈ v, type.fits w = true) :
    pg.encode type (bindParam py type (serialize py v)) = some v := by
  cases v with
  | none => exact pg.encode_null type
  | some v =>
    have hfits := h v rfl
    rw [← pg.encode_param type v hfits]
    cases v with
    | bool b | int n | float x => rfl
    | text s =>
      cases type with
      | text => rfl
      | _ => cases hfits
    | time t =>
      cases type with
      | timestamp =>
        simp [serialize, bindParam, parseTime, Value.param, replaceZ_of_notMem (py.isoformat_ne t),
          py.fromisoformat_isoformat t]
      | _ => cases hfits

end Nodeglow.Backup
