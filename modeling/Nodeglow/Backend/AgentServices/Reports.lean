import Nodeglow.Backend.Incidents.IntegrationAlerts
import Nodeglow.Backend.Maintenance.Windows
import Nodeglow.Foundation.ByKey
import Nodeglow.Foundation.Json
import Nodeglow.Foundation.Text

/-!
# Watched services

An editor sets the names of the services that an agent watches. With each report the agent tells
their states, and the report is merged into one entry for each watched service: its state, the
number of consecutive reports in which it was down, and whether an incident is open. A report that
does not tell the state of a service holds that number. When it reaches a threshold an incident is
opened, unless the host of the agent is in maintenance; when the service runs again, or is no longer
watched, the incident is resolved.

The key of an incident is a digest of the agent and of the name in lower case. A report is looked up
by the name first, and in lower case if there is none of that name.

The texts of the incident events are not here. Beside the notifications, the functions return for
which services an incident was opened or extended.

## Main results

* `evaluateService_cases` — what is done about one service.

Source: `backend/services/agent_services.py`, lines 46–344; `backend/routers/agents.py`, lines
451–452 and 528–550; `backend/routers/api_v1.py`, lines 2453–2480.
-/

namespace Nodeglow.AgentServices

open Incidents Maintenance

/-! ### The watch list -/

/-- `MAX_NAME_LEN`. -/
def maxNameLen : ℕ := 256

/-- The characters of `_NAME_RE`. -/
def isNameChar (c : Char) : Bool := c.isAlphanum || c ∈ "_.@:$ \\-".toList

/-- `_NAME_RE`. Its `$` also matches before a line feed at the end. -/
def matchesNameRe (name : List Char) : Bool :=
  let body := if name.getLast? = some '\n' then name.dropLast else name
  !body.isEmpty && body.all isNameChar

/-- `is_valid_service_name`. -/
def isValidServiceName (name : String) : Bool :=
  name ≠ "" && name.length ≤ maxNameLen && name.toList.head? ≠ some '-' &&
    matchesNameRe name.toList

/-- The names that an agent watches, as `normalize_watch_list` leaves them. -/
structure WatchList where
  names : List String
  nodup : names.Nodup
  valid : ∀ name ∈ names, isValidServiceName name = true

def WatchList.empty : WatchList := ⟨[], List.nodup_nil, by simp⟩

theorem valid_nginx : ∀ name ∈ ["nginx"], isValidServiceName name = true := by decide +kernel

/-! ### Reports -/

/-- `STATES`. -/
inductive ServiceState
  | running | stopped | notFound | unknown
deriving DecidableEq, Repr

namespace ServiceState

def text : ServiceState → String
  | running => "running"
  | stopped => "stopped"
  | notFound => "not_found"
  | unknown => "unknown"

/-- `FAILING_STATES`. -/
def failing : ServiceState → Bool
  | stopped | notFound => true
  | running | unknown => false

/-- The state with a text. -/
def ofText (s : String) : Option ServiceState :=
  [running, stopped, notFound, unknown].find? fun state => state.text = s

/-- `_describe`. -/
def describe : ServiceState → String
  | notFound => "not installed"
  | _ => "not running"

end ServiceState

/-- The entry of a watched service in `service_states`. -/
structure Entry where
  name : String
  state : ServiceState
  startType : Option String
  since : ℤ
  failCount : ℕ
  alerted : Bool
deriving DecidableEq, Repr

/-- An agent, with `service_states` as the time of the last report and the entries. -/
structure Agent where
  id : ℕ
  name : String
  hostname : Option String
  watched : WatchList
  states : Option (ℤ × List Entry)

/-- The entries that are stored. -/
def Agent.entries (a : Agent) : List Entry := (a.states.map Prod.snd).getD []

/-- The name in an item of a report. -/
def reportedName (r : Json) : Option String :=
  ((r.get? "name").bind Json.str?).filter (· ≠ "")

/-- `_index_reported`: the first item with each name. -/
def indexReported (reported : List Json) : List (String × Json) :=
  (firstByKey Prod.fst (reported.filterMap fun r => (reportedName r).map (·, r))).map Prod.snd

/-- The item of a name. Of the names that are the same in lower case the last one counts. -/
def findReported (py : Text.Lower) (reported : List Json) (name : String) : Option Json :=
  let byName := indexReported reported
  let byLower := byName.reverse.map fun r => (py.lower r.1, r.2)
  ((byName.find? (·.1 = name)).or (byLower.find? (·.1 = py.lower name))).map Prod.snd

/-- The state that an item tells. -/
def stateOf (rep : Option Json) : ServiceState :=
  (((rep.bind (·.get? "state")).bind Json.str?).bind ServiceState.ofText).getD .unknown

/-- What a report tells of one service. -/
def mergeEntry (py : Text.Lower) (previous : List Entry) (reported : List Json) (now : ℤ)
    (name : String) : Entry :=
  let rep := findReported py reported name
  let prev := previous.reverse.find? (·.name = name)
  let state := stateOf rep
  let prevCount := (prev.map Entry.failCount).getD 0
  { name := name
    state := state
    startType := match rep with
      | some rep => (rep.get? "start_type").bind Json.str?
      | none => prev.bind Entry.startType
    since := match prev with
      | some prev => if prev.state = state then prev.since else now
      | none => now
    failCount := match state with
      | .running => 0
      | .stopped | .notFound => prevCount + 1
      | .unknown => prevCount
    alerted := (prev.map Entry.alerted).getD false }

/-- `merge_report`. -/
def mergeReport (py : Text.Lower) (previous : List Entry) (watched : List String)
    (reported : List Json) (now : ℤ) : List Entry :=
  watched.map (mergeEntry py previous reported now)

/-! ### Incidents -/

/-- What lies outside: SHA-256, and the lower case of Python and of the database. -/
structure Env where
  hashing : Hashing
  py : Text.Lower
  sqlLower : String → String

/-- `RULE`. -/
def rule : String := "agent_service"

/-- The text that `incident_hash` hashes. -/
def keyText (py : Text.Lower) (agentId : ℕ) (name : String) : String :=
  "agent:" ++ toString agentId ++ ":service:" ++ py.lower name

/-- `incident_hash`. -/
def incidentHash (env : Env) (agentId : ℕ) (name : String) : String :=
  env.hashing.digest16 (keyText env.py agentId name)

/-- `_fail_threshold`. The setting is missing where its text is not a number. -/
def failThreshold (setting : Option ℤ) : ℕ := (max 1 (min (setting.getD 3) 1000)).toNat

/-- The ping hosts that represent an agent. -/
def agentPingHosts (env : Env) (a : Agent) (hosts : List PingHost) : List PingHost :=
  match a.hostname with
  | none => []
  | some hostname =>
    if hostname = "" then []
    else hosts.filter fun h => h.source = "agent" ∧
      (env.sqlLower h.hostname = env.py.lower hostname ∨
        env.sqlLower h.name = env.py.lower hostname)

/-- `_host_in_maintenance`. -/
def hostInMaintenance (env : Env) (a : Agent) (hosts : List PingHost) : Bool :=
  (agentPingHosts env a hosts).any PingHost.maintenance

/-- `_agent_ping_host_ids`. -/
def agentPingHostIds (env : Env) (a : Agent) (hosts : List PingHost) : List ℕ :=
  (agentPingHosts env a hosts).map PingHost.id

/-- The time of an incident, in minutes. -/
def minutes (now : ℤ) : ℚ := now / oneMinute

/-- A notification to send after the commit. -/
structure Notification where
  title : String
  message : String
  severity : Severity
deriving DecidableEq, Repr

/-- What a report or a change did so far. -/
structure Progress where
  incidents : Store
  entries : List Entry
  notifications : List Notification
  /-- For which services an incident was opened or extended, with its id. -/
  raised : List (String × ℕ)

/-- The table after `_resolve`. -/
def resolveService (env : Env) (agentId : ℕ) (name : String) (now : ℤ) (s : Store) : Store :=
  s.change fun i =>
    if i.Has rule (incidentHash env agentId name) then i.resolve (minutes now) else i

/-- What `_resolve` and its caller send: about the first of the incidents. -/
def resolvedNote (env : Env) (agentId : ℕ) (name summary : String) (s : Store) :
    List Notification :=
  match s.rows.find? fun i => i.Has rule (incidentHash env agentId name) with
  | some i => [⟨"✅ Resolved: " ++ i.title, summary, .info⟩]
  | none => []

/-- The title of the incident of a service. -/
def serviceTitle (a : Agent) (svc : Entry) : String :=
  a.name ++ ": service " ++ svc.name ++ " " ++ svc.state.describe

/-- The summary of the incident of a service. -/
def serviceSummary (a : Agent) (svc : Entry) : String :=
  "Service '" ++ svc.name ++ "' on agent " ++ a.name ++ " (" ++
    ((a.hostname.filter (· ≠ "")).getD "?") ++ ") is " ++ svc.state.text.replace "_" " " ++
    " for " ++ toString svc.failCount ++ " consecutive reports"

/-- The evaluation of a service that is down. -/
def serviceDown (env : Env) (a : Agent) (hosts : List PingHost) (svc : Entry) : Evaluation where
  rule := rule
  title := serviceTitle a svc
  severity := .warning
  hostIds := []
  keyHash := some (incidentHash env a.id svc.name)
  sendNotification := false
  affected := some (agentPingHostIds env a hosts)

/-- A service whose incident is due. -/
def Entry.Due (threshold : ℕ) (svc : Entry) : Prop :=
  threshold ≤ svc.failCount ∧ svc.alerted = false

instance (threshold : ℕ) (svc : Entry) : Decidable (svc.Due threshold) :=
  inferInstanceAs (Decidable (_ ∧ _))

/-- A service whose incident is over. -/
def Entry.Recovered (svc : Entry) : Prop := svc.state = .running ∧ svc.alerted = true

instance (svc : Entry) : Decidable svc.Recovered := inferInstanceAs (Decidable (_ ∧ _))

/-- One turn of the loop over the merged entries. -/
def evaluateService (env : Env) (a : Agent) (hosts : List PingHost) (threshold : ℕ) (now : ℤ)
    (p : Progress) (svc : Entry) : Option Progress :=
  if svc.Due threshold then
    if hostInMaintenance env a hosts then some { p with entries := p.entries ++ [svc] }
    else (findOrCreate env.hashing.digest16 (minutes now) (serviceDown env a hosts svc)
        p.incidents).map fun r =>
      { incidents := r.1
        entries := p.entries ++ [{ svc with alerted := true }]
        notifications := p.notifications ++
          [⟨"🔴 Incident: " ++ serviceTitle a svc, serviceSummary a svc, .warning⟩]
        raised := p.raised ++ [(svc.name, r.2.1)] }
  else if svc.Recovered then
    let summary := "Service '" ++ svc.name ++ "' on agent " ++ a.name ++ " is running again"
    some
      { p with
        incidents := resolveService env a.id svc.name now p.incidents
        entries := p.entries ++ [{ svc with alerted := false }]
        notifications := p.notifications ++ resolvedNote env a.id svc.name summary p.incidents }
  else some { p with entries := p.entries ++ [svc] }

/-- `_resolve_unwatched`. -/
def resolveUnwatched (env : Env) (a : Agent) (now : ℤ) (p : Progress) (name : String) : Progress :=
  let summary := "Service '" ++ name ++ "' on agent " ++ a.name ++ " is no longer watched"
  { p with
    incidents := resolveService env a.id name now p.incidents
    notifications := p.notifications ++ resolvedNote env a.id name summary p.incidents }

/-- The services with an incident that are not among some names. -/
def droppedFrom (entries : List Entry) (names : List String) : List String :=
  (entries.filter fun svc => svc.alerted ∧ svc.name ∉ names).map Entry.name

/-- `apply_service_report`: the agent, and what was done. With several open incidents of one service
it raises. -/
def applyServiceReport (env : Env) (a : Agent) (hosts : List PingHost) (failReports : Option ℤ)
    (reported : List Json) (now : ℤ) (incidents : Store) : Option (Agent × Progress) := do
  let merged := mergeReport env.py a.entries a.watched.names reported now
  let p ← merged.foldlM (evaluateService env a hosts (failThreshold failReports) now)
    ⟨incidents, [], [], []⟩
  let p := (droppedFrom a.entries a.watched.names).foldl (resolveUnwatched env a now) p
  return ({ a with states := some (now, p.entries) }, p)

/-- `apply_watch_list_change`. -/
def applyWatchListChange (env : Env) (a : Agent) (new : WatchList) (now : ℤ) (incidents : Store) :
    Agent × Progress :=
  ({ a with
      watched := new
      states := a.states.map fun states =>
        (states.1, states.2.filter fun svc => svc.name ∈ new.names) },
    (droppedFrom a.entries new.names).foldl (resolveUnwatched env a now)
      ⟨incidents, [], [], []⟩)

/-! ### One service -/

variable {env : Env} {a : Agent} {hosts : List PingHost} {threshold : ℕ} {now : ℤ}
  {p p' : Progress} {svc : Entry}

/-- **What is done about one service**: its incident is opened or extended, or resolved, or
nothing is done. -/
theorem evaluateService_cases (h : evaluateService env a hosts threshold now p svc = some p') :
    (svc.Due threshold ∧ hostInMaintenance env a hosts = false ∧ ∃ id notes,
      findOrCreate env.hashing.digest16 (minutes now) (serviceDown env a hosts svc) p.incidents =
        some (p'.incidents, id, notes) ∧
      p'.entries = p.entries ++ [{ svc with alerted := true }] ∧
      p'.raised = p.raised ++ [(svc.name, id)]) ∨
    (¬svc.Due threshold ∧ svc.Recovered ∧
      p'.incidents = resolveService env a.id svc.name now p.incidents ∧
      p'.entries = p.entries ++ [{ svc with alerted := false }] ∧ p'.raised = p.raised) ∨
    ((svc.Due threshold → hostInMaintenance env a hosts = true) ∧
      (svc.Recovered → svc.Due threshold) ∧
      p'.incidents = p.incidents ∧ p'.entries = p.entries ++ [svc] ∧ p'.raised = p.raised) := by
  unfold evaluateService at h
  split at h
  · rename_i hdue
    split at h
    · rename_i hmaintenance
      obtain rfl := Option.some.inj h
      exact .inr (.inr ⟨fun _ => hmaintenance, fun _ => hdue, rfl, rfl, rfl⟩)
    · rename_i hmaintenance
      obtain ⟨⟨s, id, notes⟩, hs, rfl⟩ := Option.map_eq_some_iff.mp h
      exact .inl ⟨hdue, by simpa using hmaintenance, id, notes, hs, rfl, rfl⟩
  · rename_i hdue
    split at h
    · rename_i hrecovered
      obtain rfl := Option.some.inj h
      exact .inr (.inl ⟨hdue, hrecovered, rfl, rfl, rfl⟩)
    · rename_i hrecovered
      obtain rfl := Option.some.inj h
      exact .inr (.inr ⟨fun h => absurd h hdue, fun h => absurd h hrecovered, rfl, rfl, rfl⟩)

theorem hash_serviceDown :
    (serviceDown env a hosts svc).hash env.hashing.digest16 = incidentHash env a.id svc.name := by
  simp [Evaluation.hash, serviceDown, incidentHash, env.hashing.ne_empty16]

/-! ### Examples -/

/-- SHA-256 of the keys in the examples. -/
def keyTable : List (String × String) := [("agent:7:service:nginx", "5d7bf1ad7ca65838")]

/-- SHA-256 on these keys, and lower case of ASCII letters. -/
def sampleEnv : Env where
  hashing :=
    { Hashing.sample with
      digest16 := tabulated keyTable
      ne_empty16 := tabulated_ne_empty (by decide)
      injective16 := tabulated_injective_of (by decide) (by decide) }
  py := .asciiOnly
  sqlLower := Text.asciiLower

/-- The report of the states of services. -/
def states (report : List (String × String)) : List Json :=
  report.map fun r => .obj [("name", .str r.1), ("state", .str r.2)]

end Nodeglow.AgentServices
