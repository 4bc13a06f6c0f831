import Mathlib.Algebra.GroupWithZero.Nat
import Nodeglow.Backend.Maintenance.Windows
import Nodeglow.Foundation.Json
import Nodeglow.Foundation.Text
import Nodeglow.Foundation.TruncatedMerge

/-!
# The change feed

The feed has no table of its own: its items come from ten sources, rows of tables that record the
changes and facts that are computed from others. A page is read with an offset and a limit. Of each
source that is a query only as many rows are read as the page can reach, the others are computed in
full, and what is found is sorted by time, newest first.

Instants are numbers of microseconds since the start of 1970 in UTC. Among rows of one time a query
has an order of its own, which does not change. The formatting of instants, the reading of JSON and
the database of time zones are a parameter, and intervals of seconds are exact.

Source: `backend/services/changes.py`; `backend/services/probes.py`, lines 33–89;
`backend/services/host_state.py`, lines 95–104 and 338–344.
-/

namespace Nodeglow.Changes

/-! ### The tables -/

/-- `Incident`. -/
structure Incident where
  id : ℕ
  title : String
  severity : String
  rule : String
  status : String
  createdAt : ℤ
  resolvedAt : Option ℤ

/-- `IncidentEvent`. -/
structure IncidentEvent where
  incidentId : ℕ
  timestamp : ℤ
  eventType : String
  summary : String

/-- `PingHost`. -/
structure PingHost where
  id : ℕ
  name : String
  source : Option String
  sourceDetail : Option String
  createdAt : Option ℤ

/-- `DiscoveredPort`. -/
structure DiscoveredPort where
  hostId : ℕ
  port : ℕ
  protocol : Option String
  service : Option String
  status : Option String
  firstSeen : Option ℤ

/-- `Agent`. -/
structure Agent where
  id : ℕ
  name : String
  hostname : Option String
  platform : Option String
  isProbe : Bool
  probeIntervalSeconds : Option ℤ
  lastSeen : Option ℤ
  createdAt : Option ℤ

/-- `AuditLog`. -/
structure AuditLog where
  timestamp : Option ℤ
  username : Option String
  action : String
  targetType : Option String
  targetId : Option ℕ
  targetName : Option String
  details : Option String

/-- **The tables of a tenant.** The ids are primary keys, and an event and a port belong to an
incident and a host of the tenant by foreign keys. -/
structure Database where
  incidents : List Incident
  incidentEvents : List IncidentEvent
  pingHosts : List PingHost
  discoveredPorts : List DiscoveredPort
  agents : List Agent
  auditLogs : List AuditLog
  maintenanceWindows : List Maintenance.WindowSpec
  incident_nodup : (incidents.map Incident.id).Nodup
  host_nodup : (pingHosts.map PingHost.id).Nodup
  incident_of_event : ∀ ev ∈ incidentEvents, ev.incidentId ∈ incidents.map Incident.id
  host_of_port : ∀ dp ∈ discoveredPorts, dp.hostId ∈ pingHosts.map PingHost.id

/-- What Python does: the text of an instant, of a JSON value in an f-string, and of a number, the
JSON value of a text, if it has one, and the time zone of a name. -/
structure Python where
  iso : ℤ → String
  str : Json → String
  loads : String → Option Json
  zoneInfo : String → Maintenance.Zone

/-! ### Items -/

/-- `TYPES`. -/
inductive FeedType
  | incidentOpened | incidentResolved | incidentAcknowledged | hostAdded | portDiscovered
  | agentEnrolled | agentUpdated | maintenanceStarted | probeSilent | configChange
deriving DecidableEq, Repr

/-- The types, in the order of the counts. -/
def feedTypes : List FeedType :=
  [.incidentOpened, .incidentResolved, .incidentAcknowledged, .hostAdded, .portDiscovered,
    .agentEnrolled, .agentUpdated, .maintenanceStarted, .probeSilent, .configChange]

/-- The types in the order in which `collect` reads them. -/
def sourceOrder : List FeedType :=
  [.incidentOpened, .incidentResolved, .incidentAcknowledged, .hostAdded, .portDiscovered,
    .agentEnrolled, .agentUpdated, .configChange, .maintenanceStarted, .probeSilent]

/-- An item. Its time is what `at` tells, and what the items are sorted by. -/
structure Item where
  type : FeedType
  time : ℤ
  title : String
  objectKind : String
  objectId : Option ℕ
  objectName : Option String
  detail : List (String × Json)

/-- `_item`; details without a value are left out. -/
def item (type : FeedType) (time : ℤ) (title objectKind : String) (objectId : Option ℕ)
    (objectName : Option String) (detail : List (String × Option Json)) : Item :=
  ⟨type, time, title, objectKind, objectId, objectName,
    detail.filterMap fun (key, value) => value.map fun v => (key, v)⟩

/-- A text in a detail. -/
def text (s : Option String) : Option Json := s.map Json.str

/-- A number in a detail. -/
def number (n : ℤ) : Option Json := some (.num n)

/-- A text of the database in an f-string. -/
def format (s : Option String) : String := s.getD "None"

/-- `x or y` of texts. -/
def orElse (x y : Option String) : Option String := (x.filter (· ≠ "")).or y

variable (py : Python)

def openedItem (time : ℤ) (inc : Incident) : Item :=
  item .incidentOpened time ("#" ++ toString inc.id ++ " " ++ inc.title) "incident" inc.id inc.title
    [("severity", text inc.severity), ("rule", text inc.rule), ("status", text inc.status)]

def resolvedItem (time : ℤ) (inc : Incident) : Item :=
  item .incidentResolved time ("#" ++ toString inc.id ++ " " ++ inc.title) "incident" inc.id
    inc.title [("severity", text inc.severity), ("opened_at", text (py.iso inc.createdAt)),
      ("duration_seconds", number ((time - inc.createdAt).tdiv 1000000))]

def acknowledgedItem (time : ℤ) : IncidentEvent × String → Item
  | (ev, title) =>
    item .incidentAcknowledged time ("#" ++ toString ev.incidentId ++ " " ++ title) "incident"
      ev.incidentId title [("summary", text ev.summary)]

def hostItem (time : ℤ) (h : PingHost) : Item :=
  let source := (orElse h.source (some "manual")).getD "manual"
  let discovered := source ≠ "manual"
  let title := if discovered then "New host discovered: " ++ h.name else "Host added: " ++ h.name
  item .hostAdded time title "host" h.id h.name [("source", text source),
    ("discovered", some (.bool discovered)), ("source_detail", text h.sourceDetail)]

def portItem (time : ℤ) : DiscoveredPort × String → Item
  | (dp, hostName) =>
    item .portDiscovered time
      (hostName ++ ": port " ++ toString dp.port ++ "/" ++ format dp.protocol ++ " open") "host"
      dp.hostId hostName
      [("port", number dp.port), ("service", text dp.service), ("status", text dp.status)]

def enrolledItem (time : ℤ) (a : Agent) : Item :=
  item .agentEnrolled time ("Agent enrolled: " ++ a.name) "agent" a.id a.name
    [("platform", text a.platform)]

/-- `_json`: an object, or one without keys. -/
def detailsOf (raw : Option String) : Json :=
  match (raw.filter (· ≠ "")).bind py.loads with
  | some (.obj fields) => .obj fields
  | _ => .obj []

/-- A value of an object, where `null` is none. -/
def getValue (j : Json) (key : String) : Option Json :=
  match j.get? key with
  | some .null => none
  | value => value

def updatedItem (time : ℤ) (row : AuditLog) : Item :=
  let d := detailsOf py row.details
  item .agentUpdated time ("Agent " ++ format row.targetName ++ " updated to " ++
      py.str ((d.get? "to").getD (.str "?"))) "agent" row.targetId row.targetName
    [("from", getValue d "from"), ("to", getValue d "to")]

def configItem (time : ℤ) (row : AuditLog) : Item :=
  item .configChange time
    (Text.strip (row.action ++ ": " ++ (orElse row.targetName (orElse row.targetType none)).getD ""))
    ((orElse row.targetType none).getD "setting") row.targetId row.targetName
    [("action", text row.action), ("by", text row.username)]

def toggledItem (time : ℤ) (row : AuditLog) : Item :=
  item .maintenanceStarted time ("Maintenance toggled: " ++ format row.targetName) "host"
    row.targetId row.targetName [("manual", some (.bool true)), ("by", text row.username)]

def windowItem (w : Maintenance.WindowSpec) (occurrence : ℤ × ℤ) : Item :=
  let hostIds := w.hostIds.dedup.insertionSort (· ≤ ·)
  let scope := if w.allHosts then "all hosts" else toString hostIds.length ++ " host(s)"
  item .maintenanceStarted occurrence.1 ("Maintenance started: " ++ w.name) "maintenance_window"
    w.id w.name [("ends_at", text (py.iso occurrence.2)), ("scope", text scope),
      ("host_ids", if w.allHosts then none else some (.arr (hostIds.map fun i => .num i)))]

/-- `ProbeState.name`. -/
def probeName (a : Agent) : String :=
  (orElse (some a.name) (orElse a.hostname (some ("agent-" ++ toString a.id)))).getD ""

def probeItem (a : Agent) (silentAt : ℤ) : Item :=
  let title :=
    if a.lastSeen.isSome then "Probe went silent: " ++ probeName a
    else "Probe never reported: " ++ probeName a
  item .probeSilent silentAt title "probe" a.id (probeName a)
    [("last_report", text (a.lastSeen.map py.iso))]

/-! ### The sources -/

/-- The rows that meet a condition, with their times, from one instant on and before another one. -/
def inRange {α : Type} (since stop : ℤ) (time : α → Option ℤ) (cond : α → Bool) (table : List α) :
    List (ℤ × α) :=
  (table.filter cond).filterMap fun row =>
    (time row).bind fun t => if since ≤ t ∧ t < stop then some (t, row) else none

/-- Rows that are newer stand first. -/
def RowNewer {α : Type} (a b : ℤ × α) : Prop := b.1 ≤ a.1

instance {α : Type} : DecidableRel (@RowNewer α) := fun a b => inferInstanceAs
  (Decidable (b.1 ≤ a.1))

/-- **The order in which a query has rows of one time**, which does not change. -/
structure Plan where
  scan : FeedType → {α : Type} → List α → List α
  perm : ∀ (type : FeedType) {α : Type} (rows : List α), (scan type rows).Perm rows

/-- A query with its order, without a limit. -/
def Plan.newestFirst (plan : Plan) (type : FeedType) {α : Type} (rows : List (ℤ × α)) :
    List (ℤ × α) :=
  (plan.scan type rows).insertionSort RowNewer

/-- The items of the rows of a query. -/
def Plan.items (plan : Plan) (type : FeedType) {α : Type} (mk : ℤ → α → Item)
    (rows : List (ℤ × α)) : List Item :=
  (plan.newestFirst type rows).map fun row => mk row.1 row.2

/-- The inner join with the rows that have an id; of each of them one value is taken. -/
def join {α β γ : Type} (key : α → ℕ) (id : β → ℕ) (value : β → γ) (parents : List β)
    (rows : List (ℤ × α)) : List (ℤ × α × γ) :=
  rows.flatMap fun (t, row) =>
    (parents.filter fun p => id p = key row).map fun p => (t, row, value p)

/-- `_AUDIT_EXCLUDED`. -/
def auditExcluded : List String :=
  ["auth.login", "auth.logout", "agent.version_change", "maintenance.toggle"]

section Sources

variable (db : Database) (plan : Plan) (since stop : ℤ)

/-- The rows of `incidents` that were opened. -/
def opened : List (ℤ × Incident) :=
  inRange since stop (fun inc => some inc.createdAt) (fun _ => true) db.incidents

def resolved : List (ℤ × Incident) :=
  inRange since stop Incident.resolvedAt (fun _ => true) db.incidents

def acknowledged : List (ℤ × IncidentEvent) :=
  inRange since stop (fun ev => some ev.timestamp) (fun ev => ev.eventType = "acknowledged")
    db.incidentEvents

def hosts : List (ℤ × PingHost) :=
  inRange since stop PingHost.createdAt (fun _ => true) db.pingHosts

def ports : List (ℤ × DiscoveredPort) :=
  inRange since stop DiscoveredPort.firstSeen (fun _ => true) db.discoveredPorts

def enrolled : List (ℤ × Agent) :=
  inRange since stop Agent.createdAt (fun _ => true) db.agents

def updated : List (ℤ × AuditLog) :=
  inRange since stop AuditLog.timestamp (fun row => row.action = "agent.version_change") db.auditLogs

def configured : List (ℤ × AuditLog) :=
  inRange since stop AuditLog.timestamp (fun row => row.action ∉ auditExcluded) db.auditLogs

def toggled : List (ℤ × AuditLog) :=
  inRange since stop AuditLog.timestamp (fun row => row.action = "maintenance.toggle") db.auditLogs

/-- `load_windows`; a malformed row is a window that is not enabled. -/
def loadWindows : List Maintenance.WindowSpec := db.maintenanceWindows.filter fun w => w.enabled

/-- The occurrences of the maintenance windows. -/
def windowItems : List Item :=
  (loadWindows db).flatMap fun w =>
    (Maintenance.occurrencesBetween py.zoneInfo w since stop).map (windowItem py w)

/-- `staleness_window`, in microseconds. -/
def stalenessWindow (intervalSeconds : Option ℤ) : ℤ :=
  let interval := (intervalSeconds.filter (· ≠ 0)).getD 60
  max 120 (interval * 3) * 1000000

/-- When a probe fell silent, if it is silent at an instant: `is_stale` and what follows it. -/
def silentAt (a : Agent) (stop : ℤ) : Option ℤ :=
  match a.lastSeen with
  | none => a.createdAt
  | some lastSeen =>
    if stop - lastSeen > stalenessWindow a.probeIntervalSeconds then
      some (lastSeen + stalenessWindow a.probeIntervalSeconds)
    else none

/-- The probes that are silent. -/
def silentItems : List Item :=
  (db.agents.filter fun a => a.isProbe).filterMap fun a =>
    (silentAt a stop).bind fun t => if since ≤ t ∧ t < stop then some (probeItem py a t) else none

/-- The items of a source that are computed in full. -/
def computedItems : FeedType → List Item
  | .maintenanceStarted => windowItems py db since stop
  | .probeSilent => silentItems py db since stop
  | _ => []

/-- The items of the query of a source, without its limit. -/
def queriedItems (type : FeedType) : List Item :=
  match type with
  | .incidentOpened => plan.items type openedItem (opened db since stop)
  | .incidentResolved => plan.items type (resolvedItem py) (resolved db since stop)
  | .incidentAcknowledged =>
    plan.items type acknowledgedItem
      (join IncidentEvent.incidentId Incident.id Incident.title db.incidents
        (acknowledged db since stop))
  | .hostAdded => plan.items type hostItem (hosts db since stop)
  | .portDiscovered =>
    plan.items type portItem
      (join DiscoveredPort.hostId PingHost.id PingHost.name db.pingHosts (ports db since stop))
  | .agentEnrolled => plan.items type enrolledItem (enrolled db since stop)
  | .agentUpdated => plan.items type (updatedItem py) (updated db since stop)
  | .configChange => plan.items type configItem (configured db since stop)
  | .maintenanceStarted => plan.items type toggledItem (toggled db since stop)
  | .probeSilent => []

/-- `_count` of the conditions of a source. -/
def rowCount : FeedType → ℕ
  | .incidentOpened => (opened db since stop).length
  | .incidentResolved => (resolved db since stop).length
  | .incidentAcknowledged => (acknowledged db since stop).length
  | .hostAdded => (hosts db since stop).length
  | .portDiscovered => (ports db since stop).length
  | .agentEnrolled => (enrolled db since stop).length
  | .agentUpdated => (updated db since stop).length
  | .configChange => (configured db since stop).length
  | .maintenanceStarted => (toggled db since stop).length
  | .probeSilent => 0

/-- What is read of a source: its query only as deep as the page can reach. -/
def readItems (depth : ℕ) (type : FeedType) : List Item :=
  computedItems py db since stop type ++ (queriedItems py db plan since stop type).take depth

/-- The count of a source. -/
def sourceCount (depth : ℕ) : FeedType → ℕ
  | .maintenanceStarted =>
    (readItems py db plan since stop depth .maintenanceStarted).length -
      ((queriedItems py db plan since stop .maintenanceStarted).take depth).length +
        rowCount db since stop .maintenanceStarted
  | .probeSilent => (readItems py db plan since stop depth .probeSilent).length
  | type => rowCount db since stop type

end Sources

/-! ### Pages -/

/-- The arguments of `collect`; no types are all of them. -/
structure Request where
  since : ℤ
  stop : Option ℤ
  limit : ℕ
  offset : ℤ
  types : List FeedType
  isAdmin : Bool

/-- `MAX_WINDOW_DAYS`. -/
def maxWindowDays : ℕ := 31

/-- `MAX_OFFSET`. -/
def maxOffset : ℕ := 5000

/-- The end of the time range. -/
def Request.until (req : Request) (now : ℤ) : ℤ := req.stop.getD now

/-- The start of the time range. -/
def Request.from (req : Request) (now : ℤ) : ℤ :=
  max req.since (req.until now - maxWindowDays * (24 * 60) * Maintenance.oneMinute)

/-- The wanted types; changes of the configuration are for administrators. -/
def Request.wants (req : Request) (type : FeedType) : Bool :=
  (req.types = [] ∨ type ∈ req.types) ∧ (req.isAdmin ∨ type ≠ .configChange)

/-- The clamped offset. -/
def Request.start (req : Request) : ℕ := (max 0 (min req.offset maxOffset)).toNat

/-- Newer items stand first. -/
def Newer (a b : Item) : Prop := b.time ≤ a.time

instance : DecidableRel Newer := fun a b => inferInstanceAs (Decidable (b.time ≤ a.time))

/-- What `collect` returns. -/
structure Page where
  since : ℤ
  stop : ℤ
  total : ℕ
  counts : List (FeedType × ℕ)
  limit : ℕ
  offset : ℕ
  hasMore : Bool
  items : List Item

/-- `collect`. -/
def collect (db : Database) (plan : Plan) (now : ℤ) (req : Request) : Page :=
  let since := req.from now
  let stop := req.until now
  let depth := req.start + req.limit
  let count := sourceCount py db plan since stop depth
  let items := ((sourceOrder.filter req.wants).flatMap
    (readItems py db plan since stop depth)).insertionSort Newer
  let page := (items.drop req.start).take req.limit
  let total := ((sourceOrder.filter req.wants).map count).sum
  { since := since
    stop := stop
    total := total
    counts := (feedTypes.filter req.wants).map fun type => (type, count type)
    limit := req.limit
    offset := req.start
    hasMore := req.start + page.length < total
    items := page }

/-- **The full feed**: all wanted sources, read completely, newest first, and in the order of the
sources where items have one time. -/
def fullFeed (db : Database) (plan : Plan) (now : ℤ) (req : Request) : List Item :=
  ((sourceOrder.filter req.wants).flatMap fun type =>
    computedItems py db (req.from now) (req.until now) type ++
      queriedItems py db plan (req.from now) (req.until now) type).insertionSort Newer

end Nodeglow.Changes
