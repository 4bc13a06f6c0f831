import Mathlib.Data.List.DropRight
import Nodeglow.Backend.Incidents.Incident

/-!
# Incidents from integration data

What an integration finds in a successful snapshot is an alert, and an alert that several snapshots
in a row report becomes an incident; the first snapshot that no longer reports it resolves it. The
source of an alert is the config, or its cluster group if it has one, so that the incidents outlive
a failover. An integration that cannot collect has an incident of its own.

The rows of one result are written in a session. Each step that concerns incidents runs in a
savepoint of it, and the notifications of a step are queued in the session and sent after its
commit. The streaks of the alerts are kept in the process: a savepoint that is rolled back does not
roll back the streaks.

SHA-256 is a parameter; `Hashing` adds that the shortened digests have no collision. Which ping host
a name means, and whether it is in maintenance, is an argument of an evaluation.

Source: `backend/services/integration_alerts.py`; `backend/services/integration_ingest.py`, lines
108–236; `backend/scheduler.py`, lines 186–215.
-/

namespace Nodeglow.Incidents

/-! ### Keys -/

/-- SHA-256 in hexadecimal form, cut to 16 and to 12 characters. -/
structure Digests where
  digest16 : String → String
  digest12 : String → String
  ne_empty16 : ∀ s, digest16 s ≠ ""

/-- Digests without a collision. They are hexadecimal, so that no colon is in them. -/
structure Hashing extends Digests where
  injective16 : Function.Injective digest16
  injective12 : Function.Injective digest12
  noColon12 : ∀ s, ':' ∉ (digest12 s).toList

/-- The digests of the texts in a table; every other text stands for itself, with a mark. -/
def tabulated (table : List (String × String)) (s : String) : String :=
  ((table.find? fun p => p.1 = s).map Prod.snd).getD ("#" ++ s)

/-- SHA-256 of the texts in the examples of this development. -/
def sampleTable : List (String × String) :=
  [("0", "5feceb66ffc86f38"), ("1", "6b86b273ff34fce1"), ("2", "d4735e3a265e16ee"),
    ("3", "4e07408562bedb8b"), ("1,2,3", "8a6ae15122001229"), ("1,2,3,4", "37db36876b9ccaaa"),
    ("4,5,6", "084adc872cdf1d69"), ("", "e3b0c44298fc1c14"), ("self-disk", "27e65daa2b31b521"),
    ("A|", "0bcdb101896e0552"), ("B|", "9250938710a216ea"), ("C|", "d0553d2c34da1088"),
    ("UPS high load|", "bc861d8726f5c16c")]

theorem tabulated_cases (table : List (String × String)) (s : String) :
    (s, tabulated table s) ∈ table ∨ tabulated table s = "#" ++ s := by
  unfold tabulated
  cases hfound : table.find? fun p => p.1 = s with
  | none => exact .inr rfl
  | some p =>
    have hp : p.1 = s := by simpa using List.find?_some hfound
    exact .inl (hp ▸ List.mem_of_find?_eq_some hfound)

/-- A table of different digests, none of them marked. -/
theorem tabulated_injective_of {table : List (String × String)}
    (hmark : ∀ p ∈ table, p.2.toList.head? ≠ some '#')
    (hvalues : ∀ p ∈ table, ∀ q ∈ table, p.2 = q.2 → p.1 = q.1) :
    Function.Injective (tabulated table) := by
  have hmarked : ∀ s t, (s, "#" ++ t) ∉ table := fun s t hmem => hmark _ hmem (by simp)
  intro s t hst
  rcases tabulated_cases table s with hs | hs <;>
    rcases tabulated_cases table t with ht | ht
  · exact hvalues _ hs _ ht hst
  · rw [hst, ht] at hs
    exact absurd hs (hmarked s t)
  · rw [← hst, hs] at ht
    exact absurd ht (hmarked t s)
  · rw [hs, ht] at hst
    exact (String.append_right_inj "#").mp hst

theorem tabulated_injective : Function.Injective (tabulated sampleTable) :=
  tabulated_injective_of (by decide) (by decide)

theorem tabulated_ne_empty {table : List (String × String)} (hvalues : ∀ p ∈ table, p.2 ≠ "")
    (s : String) : tabulated table s ≠ "" := by
  rcases tabulated_cases table s with h | h
  · exact hvalues _ h
  · simp [h]

/-- A text in which no colon occurs. -/
def escapeColons : List Char → List Char
  | [] => []
  | ':' :: cs => '.' :: '1' :: escapeColons cs
  | '.' :: cs => '.' :: '0' :: escapeColons cs
  | c :: cs => c :: escapeColons cs

theorem colon_not_mem_escapeColons (cs : List Char) : ':' ∉ escapeColons cs := by
  fun_induction escapeColons cs <;> simp_all [eq_comm]

/-- The text that `escapeColons` has escaped. -/
def unescapeColons : List Char → List Char
  | [] => []
  | '.' :: '1' :: cs => ':' :: unescapeColons cs
  | '.' :: '0' :: cs => '.' :: unescapeColons cs
  | c :: cs => c :: unescapeColons cs

theorem unescapeColons_escapeColons : Function.LeftInverse unescapeColons escapeColons := by
  intro cs
  fun_induction escapeColons cs <;> simp_all [unescapeColons]

/-- The digests of the examples. -/
def Hashing.sample : Hashing where
  digest16 := tabulated sampleTable
  digest12 s := String.ofList ('#' :: escapeColons s.toList)
  ne_empty16 := tabulated_ne_empty (by decide)
  injective16 := tabulated_injective
  injective12 s t h := by
    have := String.ofList_injective h
    rw [List.cons.injEq] at this
    exact String.toList_injective (unescapeColons_escapeColons.injective this.2)
  noColon12 s := by
    simpa using colon_not_mem_escapeColons s.toList

/-- A config, with the columns that are read here. The type is the name of an integration. -/
structure IntegrationConfig where
  id : ℕ
  type : String
  name : String
  clusterGroup : Option String
  noSlash : '/' ∉ type.toList

theorem noSlash_truenas : '/' ∉ "truenas".toList := by decide

/-- An alert in the data of a snapshot. -/
structure Alert where
  severity : Severity
  title : String
  entity : String
  host : String
deriving DecidableEq, Repr

def alertRule : String := "integration_alert"

def failedRule : String := "integration_failed"

def alertMinCycles : ℕ := 2

def failedMinSnapshots : ℕ := 2

def failedMinMinutes : ℚ := 10

section Keys

variable (h : Digests) (cfg : IntegrationConfig)

/-- `cfg.cluster_group`, where the empty text counts as none. -/
def IntegrationConfig.group : Option String := cfg.clusterGroup.filter fun group => group ≠ ""

/-- `_source`. -/
def source : String :=
  match cfg.group with
  | some group => "g" ++ h.digest12 (cfg.type ++ "/" ++ group)
  | none => toString cfg.id

/-- `alert_prefix`. -/
def alertPrefix : String := "ia:" ++ source h cfg ++ ":"

/-- `alert_key`. -/
def alertKey (alert : Alert) : String :=
  alertPrefix h cfg ++ h.digest16 (alert.title ++ "|" ++ alert.entity)

/-- `failed_key`. -/
def failedKey : String := "if:" ++ toString cfg.id

/-- `_alert_title`. -/
def alertTitle (alert : Alert) : String :=
  String.ofList ((cfg.name ++ ": " ++ alert.title ++
    if alert.entity = "" then "" else " – " ++ alert.entity).toList.take 256)

end Keys

/-- `key.startswith(start)`. -/
def startsWith (start key : String) : Bool := start.toList.isPrefixOf key.toList

/-! ### Sessions -/

/-- The rows as the session sees them, and the notifications it has queued. -/
structure Session where
  store : Store
  queued : List Note
deriving DecidableEq, Repr

/-- `_open`, for one key. -/
def openExact (rule key : String) (s : Store) : List Incident :=
  s.rows.filter fun i => i.Has rule key

/-- `_open`, for all keys with a start. -/
def openLike (rule start : String) (s : Store) : List Incident :=
  s.rows.filter fun i => i.live ∧ i.rule = rule ∧ i.hostIdsHash.any (startsWith start)

/-- `_open_or_extend`. -/
def openOrExtend (h : Digests) (now : ℚ) (rule title : String) (severity : Severity) (key : String)
    (hostIds : List ℕ) (s : Session) : Option Session :=
  let existed := openExact rule key s.store ≠ []
  (findOrCreate h.digest16 now ⟨rule, title, severity, [], some key, false, some hostIds⟩
    s.store).map fun (store, id, _) =>
      { store := store
        queued := if existed then s.queued
          else s.queued ++ [⟨"🔴 Incident: " ++ title, severity, id⟩] }

/-- `_resolve`, of one incident after the other. -/
def resolveIncidents (now : ℚ) (incidents : List Incident) (s : Session) : Session :=
  incidents.foldl (fun s i =>
    { store := s.store.modify i.id (Incident.resolve now)
      queued := s.queued ++ [⟨"✅ Resolved: " ++ i.title, .info, i.id⟩] }) s

@[simp] theorem resolve_resolve (now : ℚ) (i : Incident) :
    (i.resolve now).resolve now = i.resolve now := rfl

@[simp] theorem id_resolve (now : ℚ) (i : Incident) : (i.resolve now).id = i.id := rfl

/-- The rows after incidents have been resolved. -/
theorem store_resolveIncidents (now : ℚ) (incidents : List Incident) (s : Session) :
    (resolveIncidents now incidents s).store =
      s.store.change fun j => if j.id ∈ incidents.map Incident.id then j.resolve now else j := by
  induction incidents generalizing s with
  | nil => simp [resolveIncidents, Store.change]
  | cons i incidents ih =>
    rw [resolveIncidents, List.foldl_cons, ← resolveIncidents, ih]
    simp only [Store.modify, Store.change, List.map_map, List.map_cons, List.mem_cons]
    congr 1
    refine List.map_congr_left fun j _ => ?_
    by_cases hij : j.id = i.id <;> simp [hij]

theorem queued_resolveIncidents (now : ℚ) (incidents : List Incident) (s : Session) :
    (resolveIncidents now incidents s).queued =
      s.queued ++ incidents.map fun i => ⟨"✅ Resolved: " ++ i.title, .info, i.id⟩ := by
  induction incidents generalizing s with
  | nil => simp [resolveIncidents]
  | cons i incidents ih =>
    rw [resolveIncidents, List.foldl_cons, ← resolveIncidents, ih]
    simp

/-! ### Evaluations -/

/-- A ping host: its id, and whether it is in maintenance. -/
structure HostRef where
  id : ℕ
  inMaintenance : Bool
deriving DecidableEq, Repr

/-- What an evaluation reads: the config, the alerts that `parse_alerts` finds, the ping hosts, and
the endpoint of the integration. -/
structure Report where
  cfg : IntegrationConfig
  alerts : List Alert
  index : String → Option HostRef
  endpoint : String
  now : ℚ

/-- Where a step raises, if it does. -/
inductive Fault
  | never
  /-- Before it has changed a streak. -/
  | before
  /-- When it reads the open incidents: streaks have ended, and none has been counted. -/
  | reading
  /-- While it handles the alert with this number, or after the last of them. -/
  | at (n : ℕ)
deriving DecidableEq, Repr

/-- How many alerts are handled until it raises, if it does so on the way. -/
def Fault.fuse : Fault → Option ℕ
  | .at n => some n
  | _ => none

/-- `_streaks` of the tenant, where a missing key counts zero. -/
abbrev Streaks := String → ℕ

section Evaluation

variable (h : Digests) (r : Report)

/-- The alerts that are worth an incident, by their keys. The first alert with a key counts. -/
def Report.current : List (String × Alert) :=
  (r.alerts.filter fun a => a.severity = .critical ∨ a.severity = .warning).foldl
    (fun current a =>
      if alertKey h r.cfg a ∈ current.map Prod.fst then current
      else current ++ [(alertKey h r.cfg a, a)]) []

/-- `own_host`, and the device that an alert names. -/
def Report.ownHost : Option HostRef := r.index r.endpoint

def Report.device (a : Alert) : Option HostRef := if a.host = "" then none else r.index a.host

/-- `_in_maintenance(db, [device, own_host])`. -/
def Report.heldBack (a : Alert) : Bool :=
  (r.device a).any HostRef.inMaintenance || r.ownHost.any HostRef.inMaintenance

/-- The ids of the hosts that an alert concerns. -/
def Report.hostIds (a : Alert) : List ℕ := (((r.device a).or r.ownHost).map HostRef.id).toList

/-- The loop over the current alerts. `fuse` is the number of alerts until it raises. -/
def evaluateLoop (openKeys : List String) : List (String × Alert) → Option ℕ → Streaks × Session →
    Bool × Streaks × Session
  | [], fuse, p => (fuse.isSome, p)
  | (key, a) :: rest, fuse, (streaks, s) =>
    let streak := streaks key + 1
    let streaks := Function.update streaks key streak
    if fuse = some 0 then (true, streaks, s)
    else if key ∉ openKeys ∧ (streak < alertMinCycles ∨ r.heldBack a) then
      evaluateLoop openKeys rest (fuse.map Nat.pred) (streaks, s)
    else
      match openOrExtend h r.now alertRule (alertTitle r.cfg a) a.severity key (r.hostIds a) s with
      | none => (true, streaks, s)
      | some s => evaluateLoop openKeys rest (fuse.map Nat.pred) (streaks, s)

/-- The streaks of alerts that are gone end. -/
def endStreaks (streaks : Streaks) : Streaks := fun key =>
  if startsWith (alertPrefix h r.cfg) key ∧ key ∉ (r.current h).map Prod.fst then 0
  else streaks key

/-- `evaluate_alerts`: whether it raises, the streaks, and the session. -/
def evaluateAlerts (fault : Fault) (p : Streaks × Session) : Bool × Streaks × Session :=
  let current := r.current h
  if fault = .before then (true, p)
  else if fault = .reading then (true, endStreaks h r p.1, p.2)
  else
    let opened := openLike alertRule (alertPrefix h r.cfg) p.2.store
    let openKeys := opened.filterMap Incident.hostIdsHash
    let out := evaluateLoop h r openKeys current fault.fuse (endStreaks h r p.1, p.2)
    if out.1 then out
    else
      let gone := opened.filter fun i => i.hostIdsHash.all fun key => key ∉ current.map Prod.fst
      (false, out.2.1, resolveIncidents r.now gone out.2.2)

end Evaluation

/-! ### Failing integrations -/

/-- What `record_failure` reads: whether the last snapshots are ok, the newest first, how many
minutes ago the last ok one was, and the ping host of the endpoint. -/
structure Failure where
  recent : List Bool
  sinceOk : Option ℚ
  host : Option HostRef
  now : ℚ

section Failures

variable (h : Digests) (cfg : IntegrationConfig)

/-- `record_failure`. -/
def recordFailure (f : Failure) (s : Session) : Option Session :=
  if f.recent.length < failedMinSnapshots ∨ f.recent.any id ∨
      f.sinceOk.any (fun minutes => minutes < failedMinMinutes) then some s
  else if openExact failedRule (failedKey cfg) s.store = [] ∧ f.host.any HostRef.inMaintenance then
    some s
  else
    openOrExtend h f.now failedRule
      (String.ofList ((cfg.name ++ ": integration cannot collect").toList.take 256)) .warning
      (failedKey cfg) (f.host.map HostRef.id).toList s

/-- `record_success`. -/
def recordSuccess (now : ℚ) (s : Session) : Session :=
  resolveIncidents now (openExact failedRule (failedKey cfg) s.store) s

/-- `key.rsplit(":", 1)[0] + ":"`. -/
def keyStart (key : String) : String :=
  if ':' ∈ key.toList then String.ofList (key.toList.rdropWhile (· ≠ ':')) else key ++ ":"

/-- `resolve_orphans`, with the configs that are enabled. -/
def resolveOrphans (now : ℚ) (configs : List IntegrationConfig) (s : Session) : Session :=
  let live := configs.map (alertPrefix h) ++ configs.map failedKey
  let s := resolveIncidents now ((openLike alertRule "" s.store).filter fun i =>
    i.hostIdsHash.all fun key => keyStart key ∉ live) s
  resolveIncidents now ((openLike failedRule "" s.store).filter fun i =>
    i.hostIdsHash.all fun key => key ∉ live) s

/-- Resolving incidents of a rule leaves all other incidents alone. -/
theorem exists_resolveIncidents {now : ℚ} {incidents : List Incident} {rule : String} {s : Session}
    (hvalid : s.store.Valid) (hincidents : ∀ i ∈ incidents, i ∈ openLike rule "" s.store) :
    ∃ g, (resolveIncidents now incidents s).store = s.store.change g ∧ Keeps g ∧
      ∀ i ∈ s.store.rows, i.rule ≠ rule → g i = i := by
  refine ⟨_, store_resolveIncidents now incidents s, (keeps_resolve now).ite _, ?_⟩
  intro i hi hrule
  refine if_neg fun hid => hrule ?_
  obtain ⟨j, hj, hij⟩ := List.mem_map.mp hid
  have hj' := List.mem_filter.mp (hincidents j hj)
  obtain rfl := hvalid.eq_of_id hj'.1 hi hij
  exact (of_decide_eq_true hj'.2).2.1

/-- The step resolves incidents of the two rules, and leaves all others alone. -/
theorem exists_resolveOrphans {now : ℚ} {configs : List IntegrationConfig} {s : Session}
    (hvalid : s.store.Valid) :
    ∃ g, (resolveOrphans h now configs s).store = s.store.change g ∧ Keeps g ∧
      ∀ i ∈ s.store.rows, i.rule ≠ alertRule → i.rule ≠ failedRule → g i = i := by
  simp only [resolveOrphans]
  generalize hfilter : List.filter _ (openLike alertRule "" s.store) = alerts
  have halerts : ∀ i ∈ alerts, i ∈ openLike alertRule "" s.store := by
    intro i hi
    rw [← hfilter] at hi
    exact (List.mem_filter.mp hi).1
  obtain ⟨f, hs, hf, hother⟩ := exists_resolveIncidents hvalid halerts
  generalize resolveIncidents now alerts s = s₁ at hs
  generalize hfilter' : List.filter _ (openLike failedRule "" s₁.store) = failures
  have hfailures : ∀ i ∈ failures, i ∈ openLike failedRule "" s₁.store := by
    intro i hi
    rw [← hfilter'] at hi
    exact (List.mem_filter.mp hi).1
  obtain ⟨g, hs', hg, hother'⟩ := exists_resolveIncidents (hs ▸ hvalid.change hf) hfailures
  refine ⟨g ∘ f, ?_, hg.comp hf, fun i hi halert hfailed => ?_⟩
  · rw [hs', hs, Store.change, Store.change, Store.change, List.map_map]
  · have hfi := hother i hi halert
    rw [Function.comp_apply, hfi]
    exact hother' i (by rw [hs]; exact List.mem_map.mpr ⟨i, hi, hfi⟩) hfailed

end Failures

/-! ### Savepoints and commits -/

/-- `_alerting`: a step in a savepoint. When it raises, the rows and the notifications are as before
it, and the streaks and the sequence as it left them. -/
def alerting (step : Streaks × Session → Bool × Streaks × Session) (p : Streaks × Session) :
    Streaks × Session :=
  let out := step p
  if out.1 then
    (out.2.1, { store := { p.2.store with next := out.2.2.store.next }
                queued := out.2.2.queued.take p.2.queued.length })
  else out.2

/-- The result of a collect. -/
inductive Collected
  /-- It failed, or an exception was raised on the way. -/
  | failure (f : Failure)
  /-- It succeeded. There are alerts if there is an instance and the data is a dictionary. -/
  | success (clusterName : Option String) (alerts : Option (List Alert))

/-- One result as `ingest` receives it. -/
structure Ingest where
  cfg : IntegrationConfig
  /-- The config is still the one that the collect was started with (`check_stamp`). -/
  accepted : Bool
  collected : Collected
  index : String → Option HostRef
  endpoint : String
  now : ℚ
  /-- Whether `record_failure` or `record_success` raises, and where `evaluate_alerts` does. -/
  recordRaises : Bool
  fault : Fault

inductive Outcome
  | stored | failed | standby | rejected
deriving DecidableEq, Repr

section Ingesting

variable (h : Digests)

/-- A Proxmox config without a group takes the name of its cluster. -/
def autoGroup (clusterName : Option String) (cfg : IntegrationConfig) : IntegrationConfig :=
  if cfg.type = "proxmox" ∧ cfg.group = none then
    { cfg with clusterGroup := (clusterName.filter fun name => name ≠ "").or cfg.clusterGroup }
  else cfg

/-- The groups whose primary is decided in a pass, `cluster_owners`. -/
abbrev Owners := List (String × String)

/-- `(integration_type, cfg.cluster_group)`, if there is a group. -/
def groupKey (cfg : IntegrationConfig) : Option (String × String) := cfg.group.map (cfg.type, ·)

/-- The config of the result, and its alerts, that `ingest` evaluates. -/
def Ingest.report (i : Ingest) (clusterName : Option String) (alerts : List Alert) : Report where
  cfg := autoGroup clusterName i.cfg
  alerts := alerts
  index := i.index
  endpoint := i.endpoint
  now := i.now

/-- `record_failure` in its savepoint. -/
def failureStep (i : Ingest) (f : Failure) : Streaks × Session → Streaks × Session :=
  alerting fun p =>
    match recordFailure h i.cfg f p.2 with
    | some s => (i.recordRaises, p.1, s)
    | none => (true, p)

/-- `record_success` in its savepoint. -/
def successStep (i : Ingest) (cfg : IntegrationConfig) : Streaks × Session → Streaks × Session :=
  alerting fun p => (i.recordRaises, p.1, recordSuccess cfg i.now p.2)

/-- `ingest`. -/
def ingest (i : Ingest) (owners : Owners) (p : Streaks × Session) :
    Outcome × Owners × Streaks × Session :=
  if i.accepted = false then (.rejected, owners, p)
  else
    match i.collected with
    | .failure f => (.failed, owners, failureStep h i f p)
    | .success clusterName alerts =>
      let cfg := autoGroup clusterName i.cfg
      if (groupKey cfg).any (· ∈ owners) then (.standby, owners, successStep i cfg p)
      else
        let owners := (groupKey cfg).toList ++ owners
        let p := successStep i cfg p
        match alerts with
        | none => (.stored, owners, p)
        | some alerts =>
          (.stored, owners, alerting (evaluateAlerts h (i.report clusterName alerts) i.fault) p)

/-- The members of a unit, one after the other. -/
def ingestAll : List Ingest → Owners → Streaks × Session → Owners × Streaks × Session
  | [], owners, p => (owners, p)
  | i :: rest, owners, p =>
    let out := ingest h i owners p
    ingestAll rest out.2.1 out.2.2

/-- `_run_unit`: the table and the streaks after it, and the notifications it sends. A commit that
fails rolls back the session, and nothing is sent. -/
def runUnit (members : List Ingest) (owners : Owners) (commits : Bool) (streaks : Streaks)
    (s : Store) : Store × Streaks × List Note :=
  let out := ingestAll h members owners (streaks, { store := s, queued := [] })
  if commits then (out.2.2.store, out.2.1, out.2.2.queued)
  else ({ s with next := out.2.2.store.next }, out.2.1, [])

end Ingesting

end Nodeglow.Incidents
