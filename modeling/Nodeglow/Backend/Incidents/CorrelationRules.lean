import Mathlib.Data.Finset.Card
import Nodeglow.Backend.Incidents.IntegrationAlerts
import Nodeglow.Foundation.Text

/-!
# The correlation rules

Each rule of the correlation engine goes through what it observes in a cycle and reports what it
finds. A finding names the streak that it belongs to, and the incident that is opened or extended
when the streak is long enough; what happens then is the same for all rules. A rule is therefore the
list of its findings, in the order of its loop.

What the rules observe are rows of the database, counts of ClickHouse, and results of the log
intelligence. Thresholds on floating-point numbers are compared as rational numbers.

## Main results

* `ancestorsFrom_succ` — the search for ancestors has enough fuel.
* `offlineHosts_sublist` — offline hosts are hosts of the tenant.

Source: `backend/services/correlation.py`, lines 225–862; `backend/services/topology.py`, lines
253–307.
-/

namespace Nodeglow.Incidents

/-! ### What a cycle observes -/

/-- A ping host, with the columns that the rules read, and what is derived of them. -/
structure PingHost where
  id : ℕ
  name : String
  hostname : String
  enabled : Bool
  portError : Bool
  /-- The names of the failed checks in `check_detail`, in capitals. -/
  failedChecks : List String
  inMaintenance : Bool
  /-- How many of the newest pings failed in a row. -/
  failedPings : ℕ
deriving DecidableEq, Repr

/-- An integration config, with the host in its decrypted config, and whether the latest snapshot is
ok. Nothing stands for a config that cannot be decrypted, and for a missing snapshot. -/
structure MonitoredConfig where
  config : IntegrationConfig
  enabled : Bool
  host : Option String
  snapshotOk : Option Bool

/-- An effective baseline. -/
structure Baseline where
  hostKey : String
  avgRate : ℚ
  stdRate : ℚ
deriving DecidableEq, Repr

/-- A result of `detect_fleet_patterns`. -/
structure FleetIssue where
  templateHash : String
  hostCount : ℕ
deriving DecidableEq, Repr

/-- A log template. -/
structure LogTemplate where
  templateHash : String
  template : String
  rising : Bool
  trendScore : ℚ
  severityMode : Option ℕ
deriving DecidableEq, Repr

/-- A result of `detect_content_anomalies`. -/
inductive Anomaly
  | templateDiversitySpike (hostId : Option ℕ) (sourceIp : String)
  | severityUpgrade (templateHash template : String)
deriving DecidableEq, Repr

/-- A precursor pattern with its template, and its label in titles: the event and the confidence. -/
structure Precursor where
  precedesEvent : String
  label : String
  confidence : ℚ
  occurrenceCount : ℕ
  templateHash : String
  template : String
deriving DecidableEq, Repr

/-- What a cycle observes of a tenant. -/
structure Observed where
  hosts : List PingHost
  nodup : (hosts.map PingHost.id).Nodup
  pos : ∀ h ∈ hosts, 0 < h.id
  /-- `str.lower`. -/
  lower : String → String
  /-- How many syslog messages of severity 3 or worse a host has sent in the last five minutes. -/
  syslogErrors : ℕ → ℕ
  /-- What is known of the parents of hosts. -/
  topology : List (ℕ × Option ℕ)
  configs : List MonitoredConfig
  recentErrors : ℕ
  hourlyErrors : ℕ
  baselines : List Baseline
  logCounts : String → ℕ
  fleetIssues : List FleetIssue
  logTemplates : List LogTemplate
  anomalies : List Anomaly
  /-- The templates of the last two minutes, with their hosts. -/
  seenTemplates : List (String × Option ℕ)
  precursors : List Precursor
  minConfidence : ℚ
  minOccurrences : ℕ
  blacklisted : String → Bool

/-- `_get_offline_hosts`. -/
def Observed.offlineHosts (o : Observed) (minFailures : ℕ) : List PingHost :=
  (o.hosts.filter fun h => h.enabled && !h.inMaintenance).filter fun h =>
    minFailures ≤ h.failedPings

theorem offlineHosts_sublist (o : Observed) (minFailures : ℕ) :
    (o.offlineHosts minFailures).Sublist o.hosts :=
  List.filter_sublist.trans List.filter_sublist

/-- A match of a rule: the streak it belongs to, and the incident. -/
structure Finding where
  trackRule : String
  trackHosts : List ℕ
  rule : String
  title : String
  severity : Severity
  hostIds : List ℕ
  /-- The text that a prediction leaves on its incident. -/
  template : Option String
deriving DecidableEq, Repr

/-- The arguments with which a finding reaches `_find_or_create_incident`. -/
def Finding.evaluation (f : Finding) : Evaluation :=
  ⟨f.rule, f.title, f.severity, f.hostIds, none, true, none⟩

/-! ### Topology -/

/-- The parent of a host, if the topology knows one. -/
def parentOf (topology : List (ℕ × Option ℕ)) (host : ℕ) : Option ℕ :=
  (topology.find? fun p => p.1 = host).bind Prod.snd

/-- The loop of `get_ancestors`. It ends at a parent that it has seen. -/
def ancestorsFrom (topology : List (ℕ × Option ℕ)) : ℕ → List ℕ → ℕ → List ℕ
  | 0, _, _ => []
  | fuel + 1, seen, current =>
    match parentOf topology current with
    | none => []
    | some parent =>
      if parent ∈ seen then [] else parent :: ancestorsFrom topology fuel (parent :: seen) parent

/-- `get_ancestors`. Every parent is that of an entry of the topology. -/
def getAncestors (topology : List (ℕ × Option ℕ)) (host : ℕ) : List ℕ :=
  ancestorsFrom topology topology.length [] host

/-- The hosts with an ancestor that is offline, of `filter_upstream_failures`. -/
def cascaded (topology : List (ℕ × Option ℕ)) (offline : List ℕ) : List ℕ :=
  offline.filter fun h => (getAncestors topology h).any (· ∈ offline)

/-- The other offline hosts. -/
def primary (topology : List (ℕ × Option ℕ)) (offline : List ℕ) : List ℕ :=
  offline.filter fun h => !(getAncestors topology h).any (· ∈ offline)

/-- The parents that the topology names. -/
def parents (topology : List (ℕ × Option ℕ)) : List ℕ := topology.filterMap Prod.snd

theorem mem_parents {topology : List (ℕ × Option ℕ)} {host parent : ℕ}
    (h : parentOf topology host = some parent) : parent ∈ parents topology := by
  obtain ⟨p, hp, hparent⟩ := Option.bind_eq_some_iff.mp h
  exact List.mem_filterMap.mpr ⟨p, List.mem_of_find?_eq_some hp, hparent⟩

/-- **Enough fuel.** As long as the fuel counts the parents that have not been seen, one more unit
changes nothing. -/
theorem ancestorsFrom_succ (topology : List (ℕ × Option ℕ)) (fuel : ℕ) (seen : List ℕ)
    (current : ℕ) (hfuel : ((parents topology).toFinset \ seen.toFinset).card ≤ fuel) :
    ancestorsFrom topology (fuel + 1) seen current = ancestorsFrom topology fuel seen current := by
  induction fuel generalizing seen current with
  | zero =>
    rw [ancestorsFrom, ancestorsFrom]
    split
    · rfl
    · rename_i parent hparent
      have hmem := mem_parents hparent
      rw [if_pos]
      by_contra hnew
      have hcard := Finset.card_eq_zero.mp (Nat.le_zero.mp hfuel)
      have : parent ∈ (parents topology).toFinset \ seen.toFinset := by simp [hmem, hnew]
      simp [hcard] at this
  | succ fuel ih =>
    rw [ancestorsFrom, ancestorsFrom]
    split
    · rfl
    · rename_i parent hparent
      split
      · rfl
      · rename_i hnew
        rw [ih]
        have hmem : parent ∈ (parents topology).toFinset \ seen.toFinset := by
          simp [mem_parents hparent, hnew]
        have hsub : (parents topology).toFinset \ (parent :: seen).toFinset =
            ((parents topology).toFinset \ seen.toFinset).erase parent := by
          ext x
          simp only [List.toFinset_cons, Finset.mem_sdiff, Finset.mem_insert, Finset.mem_erase]
          tauto
        have hlt := Finset.card_erase_lt_of_mem hmem
        rw [hsub]
        omega

/-! ### The rules -/

section Rules

variable (o : Observed) (offline : List PingHost)

/-- The text without the occurrences of `sub`; `skip` characters belong to one that has begun. -/
def removeAux (sub : List Char) : ℕ → List Char → List Char
  | _, [] => []
  | skip + 1, _ :: cs => removeAux sub skip cs
  | 0, c :: cs =>
    if sub.isPrefixOf (c :: cs) then removeAux sub (sub.length - 1) cs
    else c :: removeAux sub 0 cs

/-- `s.replace(sub, "")`. -/
def remove (sub s : String) : String := String.ofList (removeAux sub.toList 0 s.toList)

/-- The decimal number that a text of digits stands for. -/
def decimal? (s : String) : Option ℕ :=
  if s.toList ≠ [] ∧ s.toList.all Char.isDigit then
    some (s.toList.foldl (fun n c => 10 * n + (c.toNat - 48)) 0)
  else none

/-- The first characters of a text. -/
def firstChars (n : ℕ) (s : String) : String := String.ofList (s.toList.take n)

/-- The candidates of `_rule_host_down_syslog` with syslog errors, and one upstream failure for the
hosts below an offline host. -/
def ruleHostDownSyslog : List Finding :=
  let cascadedIds := cascaded o.topology (offline.map PingHost.id)
  let candidates := offline.filter fun h => h.id ∉ cascadedIds
  (candidates.filter fun h => 0 < o.syslogErrors h.id).map (fun h =>
    { trackRule := "host_down_syslog"
      trackHosts := [h.id]
      rule := "host_down_syslog"
      title := h.name ++ " offline with syslog errors"
      severity := .critical
      hostIds := [h.id]
      template := none }) ++
  if cascadedIds = [] then []
  else
    [{ trackRule := "upstream_failure"
       trackHosts := cascadedIds
       rule := "upstream_failure"
       title := "Upstream failure: " ++ toString cascadedIds.length ++ " hosts affected"
       severity := .warning
       hostIds := cascadedIds
       template := none }]

/-- The /24 network of a host name that is an IPv4 address. -/
def subnet (h : PingHost) : String :=
  let parts := (Text.strip h.hostname).toList.splitOn '.'
  if parts.length = 4 ∧ parts.all fun p => p ≠ [] && p.all Char.isDigit then
    String.ofList (List.intercalate ['.'] (parts.take 3)) ++ ".0/24"
  else "unknown"

/-- The hosts by their networks, in the order in which the networks first occur. -/
def bySubnet (hosts : List PingHost) : List (String × List PingHost) :=
  (hosts.map subnet).reverse.dedup.reverse.map fun s => (s, hosts.filter fun h => subnet h = s)

/-- The hosts of the networks with fewer than three hosts. -/
def uncovered (hosts : List PingHost) : List PingHost :=
  ((bySubnet hosts).filter fun g => g.2.length < 3).flatMap Prod.snd

/-- A finding of `_rule_multi_host_down`. -/
def multiHostDown (title : String) (severity : Severity) (hosts : List PingHost) : Finding where
  trackRule := "multi_host_down"
  trackHosts := hosts.map PingHost.id
  rule := "multi_host_down"
  title := title
  severity := severity
  hostIds := hosts.map PingHost.id
  template := none

/-- `_rule_multi_host_down`. -/
def ruleMultiHostDown : List Finding :=
  let primaryIds := primary o.topology (offline.map PingHost.id)
  let primaryHosts := offline.filter fun h => h.id ∈ primaryIds
  if offline.length < 3 ∨ primaryHosts.length < 3 then []
  else
    let large := (bySubnet primaryHosts).filter fun g => 3 ≤ g.2.length
    let remaining := primaryHosts.length - (large.map fun g => g.2.length).sum
    large.map (fun g => multiHostDown
      ("Network issue: " ++ toString g.2.length ++ " hosts down in " ++ g.1) .critical g.2) ++
    if 3 ≤ remaining then
      [multiHostDown ("Multiple hosts down (" ++ toString (uncovered primaryHosts).length ++
        " across subnets)") .warning (uncovered primaryHosts)]
    else []

/-- The host of a config without protocol, port and path. -/
def hostOfConfig (host : String) : String :=
  let s := remove "http://" (remove "https://" (Text.strip (o.lower host)))
  String.ofList ((s.toList.takeWhile (· ≠ ':')).takeWhile (· ≠ '/'))

/-- The last offline host with a host name. -/
def offlineByHostname (name : String) : Option PingHost :=
  offline.reverse.find? fun h => Text.strip (o.lower h.hostname) = name

/-- `_rule_integration_host`. -/
def ruleIntegrationHost : List Finding :=
  (o.configs.filter fun c => c.enabled && c.snapshotOk = some false).filterMap fun c => do
    let name ← (c.host.map (hostOfConfig o)).filter (· ≠ "")
    let h ← offlineByHostname o offline name
    return {
      trackRule := "integration_host"
      trackHosts := [h.id]
      rule := "integration_host"
      title := c.config.name ++ " unreachable – host " ++ h.name ++ " offline"
      severity := .warning
      hostIds := [h.id]
      template := none }

/-- `_rule_port_error`. -/
def rulePortError : List Finding :=
  ((o.hosts.filter fun h => h.enabled && h.portError).filter fun h => !h.inMaintenance).map fun h =>
    { trackRule := "port_error"
      trackHosts := [h.id]
      rule := "port_error"
      title := h.name ++ ": " ++
        (if h.failedChecks = [] then "service check" else ", ".intercalate h.failedChecks) ++
        " failed"
      severity := .warning
      hostIds := [h.id]
      template := none }

/-- A finding that is not about a host. -/
def general (trackRule rule title : String) (severity : Severity) : Finding where
  trackRule := trackRule
  trackHosts := [0]
  rule := rule
  title := title
  severity := severity
  hostIds := [0]
  template := none

/-- `_rule_syslog_spike`. -/
def ruleSyslogSpike : List Finding :=
  let priorErrors := o.hourlyErrors - o.recentErrors
  let baseline : ℚ := max 1 (priorErrors / 11)
  if 10 ≤ o.recentErrors ∧ baseline * 5 ≤ o.recentErrors then
    [general "syslog_spike" "syslog_spike"
      ("Syslog error spike: " ++ toString o.recentErrors ++ " errors in 5min") .warning]
  else []

/-- The ping host with an id, if there is an id that is not zero. -/
def Observed.hostById (id : Option ℕ) : Option PingHost :=
  id.bind fun id => o.hosts.find? fun h => h.id = id

/-- The host that a baseline is about, unless its key cannot be read. -/
def Baseline.host? (b : Baseline) : Option (Option ℕ) :=
  if startsWith "host:" b.hostKey then
    (decimal? (String.ofList (b.hostKey.toList.drop 5))).map some
  else some none

/-- `_rule_log_anomaly`. -/
def ruleLogAnomaly : List Finding :=
  (o.baselines.filter fun b => 0 < b.avgRate).filterMap fun b => do
    let hostId ← b.host?
    let count := o.logCounts b.hostKey
    let currentRate : ℚ := count * 6
    guard (b.avgRate + 3 * max b.stdRate (b.avgRate * (3 / 10)) < currentRate ∧ 20 ≤ count)
    return {
      trackRule := "log_anomaly_" ++ b.hostKey
      trackHosts := [hostId.getD 0]
      rule := "log_anomaly"
      title := "Log volume anomaly: " ++ ((o.hostById hostId).map PingHost.name).getD b.hostKey
      severity := .warning
      hostIds := [((o.hostById hostId).map PingHost.id).getD 0]
      template := none }

/-- `_rule_fleet_wide`. -/
def ruleFleetWide : List Finding :=
  o.fleetIssues.map fun issue =>
    let text := ((o.logTemplates.find? fun t => t.templateHash = issue.templateHash).map
      LogTemplate.template).getD ""
    general ("fleet_wide_issue_" ++ firstChars 8 issue.templateHash) "fleet_wide_issue"
      ("Fleet-wide: " ++ firstChars 80 (if text = "" then issue.templateHash else text) ++ " (" ++
        toString issue.hostCount ++ " hosts)")
      (if 5 < issue.hostCount then .critical else .warning)

/-- `_rule_severity_trend`. -/
def ruleSeverityTrend : List Finding :=
  (o.logTemplates.filter fun t =>
      t.rising && 1 / 10 < t.trendScore && t.severityMode.any (· ≤ 3)).map fun t =>
    general ("severity_trend_" ++ firstChars 8 t.templateHash) "severity_trend"
      ("Rising error trend: " ++ firstChars 60 t.template) .warning

/-- `_rule_content_anomaly`. -/
def ruleContentAnomaly : List Finding :=
  o.anomalies.map fun
    | .templateDiversitySpike hostId sourceIp =>
      { trackRule := "content_anomaly_diversity_" ++ sourceIp
        trackHosts := [hostId.getD 0]
        rule := "content_anomaly"
        title := "Template diversity spike: " ++
          ((o.hostById hostId).map PingHost.name).getD sourceIp
        severity := .warning
        hostIds := [((o.hostById hostId).map PingHost.id).getD 0]
        template := none }
    | .severityUpgrade templateHash template =>
      general ("content_anomaly_severity_" ++ firstChars 8 templateHash) "content_anomaly"
        ("Severity upgrade: " ++ firstChars 60 template) .warning

/-- `_rule_precursor_observed`. -/
def rulePrecursorObserved : List Finding :=
  (o.seenTemplates.filter fun seen => seen.1 ≠ "").flatMap fun seen =>
    (o.precursors.filter fun p =>
        o.minConfidence ≤ p.confidence && o.minOccurrences ≤ p.occurrenceCount &&
          !o.blacklisted p.template && p.templateHash = seen.1).map fun p =>
      let dedupId := seen.2.getD 0
      { trackRule := "precursor_" ++ p.precedesEvent ++ "_" ++ firstChars 8 seen.1
        trackHosts := [dedupId]
        rule := if dedupId = 0 then "learned_precursor_" ++ p.precedesEvent else "learned_precursor"
        title := "Predicted: " ++ p.label
        severity := .warning
        hostIds := if dedupId = 0 then [] else [dedupId]
        template := if p.template = "" then none else some p.template }

end Rules

/-! ### All rules -/

/-- The rules in the order of `run_correlation`. -/
inductive Rule
  | hostDownSyslog | multiHostDown | integrationHost | portError | syslogSpike | logAnomaly
  | fleetWide | severityTrend | contentAnomaly | precursorObserved
deriving DecidableEq, Repr

def rules : List Rule :=
  [.hostDownSyslog, .multiHostDown, .integrationHost, .portError, .syslogSpike, .logAnomaly,
    .fleetWide, .severityTrend, .contentAnomaly, .precursorObserved]

/-- The rules that read the offline hosts. -/
def Rule.needsOffline : Rule → Bool
  | .hostDownSyslog | .multiHostDown | .integrationHost => true
  | _ => false

/-- What a rule finds. -/
def Rule.findings (o : Observed) (offline : List PingHost) : Rule → List Finding
  | .hostDownSyslog => ruleHostDownSyslog o offline
  | .multiHostDown => ruleMultiHostDown o offline
  | .integrationHost => ruleIntegrationHost o offline
  | .portError => rulePortError o
  | .syslogSpike => ruleSyslogSpike o
  | .logAnomaly => ruleLogAnomaly o
  | .fleetWide => ruleFleetWide o
  | .severityTrend => ruleSeverityTrend o
  | .contentAnomaly => ruleContentAnomaly o
  | .precursorObserved => rulePrecursorObserved o

end Nodeglow.Incidents
