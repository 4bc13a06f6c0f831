import Mathlib.Data.List.MinMax
import Mathlib.Data.Rat.Floor
import Nodeglow.Backend.Topology.Ancestors
import Nodeglow.Foundation.Text
import Nodeglow.Probes.ResultDelivery

/-!
# The state of a host

Every list and badge shows the state that `evaluate` gives a host. A host is only shown as observed,
as up or down or something between, while somebody looks at it: the core, whose newest result is not
too old, or the probe that it is assigned to, which has reported not too long ago.

A probe sends its results late, again, or not at all, as the delivery of results allows. Whatever
happens to them, a state that is shown as observed has the time and the outcome of a check that was
made, of this host, not longer ago than the window of its observer, and without a later result
(`no_false_green`). The latency is not always of this check: a check without one is passed over, and
the latency of an older check is compared with the threshold.

The topology has an older rule, `hostStatus`. It says the same of a host whose maintenance and
switch do not matter, unless the probe of the host is gone or the core has stopped checking it
(`hostStatus_eq_iff`).

Times are seconds. The texts of numbers and dates are parameters.

## Main results

* `evaluate_cases` — when a host is shown as observed, and as what.

Source: `backend/services/host_state.py`, lines 47–113, 131–284 and 358–430;
`backend/services/probes.py`, lines 32–136 and 180–225; `backend/services/clickhouse_client.py`,
lines 846–903.
-/

namespace Nodeglow.Hosts

open HostTopology Probes.Delivery

/-! ### Probes -/

/-- `ProbeState`. -/
structure ProbeState where
  probeId : ℤ
  name : String
  intervalSeconds : Option ℤ
  lastReport : Option ℚ
  deriving DecidableEq, Repr

/-- `interval_seconds or DEFAULT_PROBE_INTERVAL_SECONDS`. -/
def orDefault (interval : Option ℤ) : ℚ := (interval.filter (· ≠ 0)).getD 60

/-- `staleness_window`. -/
def stalenessWindow (interval : Option ℤ) : ℚ := max 120 (orDefault interval * 3)

/-- `result_window`. -/
def resultWindow (interval : Option ℤ) : ℚ := stalenessWindow interval + orDefault interval

/-- `is_stale`. -/
def isStale (probe : ProbeState) (now : ℚ) : Bool :=
  match probe.lastReport with
  | none => true
  | some t => stalenessWindow probe.intervalSeconds < now - t

inductive Status
  | up
  | down
  | unknown
  deriving DecidableEq, Repr

/-- `STATUS_UP if success else STATUS_DOWN`. -/
def Status.ofSuccess (success : Bool) : Status := if success then .up else .down

/-- `host_status`. -/
def hostStatus (success : Option Bool) (resultAge : Option ℚ) (probe : Option ProbeState)
    (now : ℚ) : Status :=
  match probe, success with
  | _, none => .unknown
  | none, some success => .ofSuccess success
  | some probe, some success =>
    if isStale probe now then .unknown
    else if resultAge.any fun age => resultWindow probe.intervalSeconds < age then .unknown
    else .ofSuccess success

/-! ### The newest result -/

/-- A row of `ping_checks`. -/
structure PingCheck where
  hostId : ℤ
  timestamp : ℚ
  success : Bool
  latency : Option ℚ
  deriving DecidableEq, Repr

/-- The rows of a host, with a lower bound for the time. -/
def rowsSince (rows : List PingCheck) (since : Option ℚ) (hostId : ℤ) : List PingCheck :=
  rows.filter fun r => r.hostId = hostId && since.all fun t => t ≤ r.timestamp

/-- The rows with a latency. -/
def measured (rows : List PingCheck) : List PingCheck := rows.filter fun r => r.latency.isSome

/-- `_latest_ping_rows` for a host, with a lower bound for the time. Each column is taken with
`argMax` for itself, and `argMax` passes over rows without a value. -/
def latestPingRow (rows : List PingCheck) (since : Option ℚ) (hostId : ℤ) : Option PingCheck :=
  ((rowsSince rows since hostId).argmax PingCheck.timestamp).map fun r =>
    { r with
      latency := ((measured (rowsSince rows since hostId)).argmax PingCheck.timestamp).bind
        PingCheck.latency }

/-- `get_latest_ping_per_host`: a second query for a host without a row in the first one. -/
def getLatestPing (rows : List PingCheck) (since : ℚ) (hostId : ℤ) : Option PingCheck :=
  (latestPingRow rows (some since) hostId).or (latestPingRow rows none hostId)

/-! ### The state of one host -/

inductive State
  | up
  | degraded
  | warning
  | down
  | unknown
  | maintenance
  | disabled
  deriving DecidableEq, Repr

/-- `OBSERVED_STATES`. -/
def State.isObserved : State → Bool
  | up | degraded | warning | down => true
  | _ => false

/-- `HostState`. -/
structure HostState where
  state : State
  reason : String
  observedAt : Option ℚ
  reasonGroup : Option String
  deriving DecidableEq, Repr

/-- What is read of a host; `checkErrors` are the items of the dictionary, sorted. -/
structure Host where
  id : ℤ
  name : String
  enabled : Bool
  maintenanceUntil : Option ℚ
  probeId : Option ℤ
  checkErrors : List (String × String)
  portError : Bool
  latencyThresholdMs : Option ℚ

/-- `api_fields`: whether a host is in maintenance, and the name and end of the window. -/
structure Maintenance where
  active : Bool
  window : Option (String × Option String)

structure OpenIncident where
  id : ℤ
  rule : Option String
  title : Option String

/-- The format specifications `.1f` and `g`, and `strftime`. -/
structure Formats where
  fixed : ℚ → String
  general : ℚ → String
  minute : ℚ → String
  upper : String → String

/-- `core_window_seconds`. -/
def coreWindowSeconds (pingInterval : Option ℤ) : ℚ := max 180 (orDefault pingInterval * 3)

/-- `_fmt_age`. -/
def fmtAge (seconds : ℚ) : String :=
  let n := ⌊seconds⌋.toNat
  if n < 120 then toString n ++ " s"
  else if n < 7200 then toString (n / 60) ++ " min"
  else if n < 172800 then toString (n / 3600) ++ " h"
  else toString (n / 86400) ++ " d"

/-- `SERVICE_RULES`. -/
def isServiceRule (rule : Option String) : Bool :=
  rule = some "agent_service" || rule = some "port_error"

/-- The rules with a prefix of `_NON_DEGRADING_PREFIXES`. -/
def isNonDegrading (rule : Option String) : Bool :=
  ["learned_precursor", "self_check"].any fun p => (rule.getD "").startsWith p

section Evaluate

variable (fmt : Formats) (host : Host) (now : ℚ)

/-- The states of a host that is switched off or in maintenance. -/
def excused (maint : Maintenance) (observedAt : Option ℚ) : Option HostState :=
  if !host.enabled then
    some ⟨.disabled, "Monitoring disabled", observedAt, some "monitoring disabled"⟩
  else if maint.active then
    some (match maint.window with
    | some (name, endsAt) =>
      let until_ := match endsAt with
        | some ends => " until " ++ ((ends.drop 11).take 5).toString ++ " UTC"
        | none => ""
      let name := if name = "" then "maintenance window" else name
      ⟨.maintenance, "Maintenance window '" ++ name ++ "'" ++ until_, observedAt,
        some ("window " ++ name)⟩
    | none =>
      let text := match host.maintenanceUntil with
        | some t => "Maintenance (manual) until " ++ fmt.minute t ++ " UTC"
        | none => "Maintenance (manual)"
      ⟨.maintenance, text, observedAt, some "manual maintenance"⟩)
  else none

/-- Who observes the host: how old its result may be, and the name of the observer. If the probe
does not, why, and the group of the reason. -/
def observer (probe : Option ProbeState) (probeMissing : Bool) (pingInterval : Option ℤ) :
    Except (String × String) (ℚ × String) :=
  if host.probeId.isNone then .ok (coreWindowSeconds pingInterval, "core")
  else match probe with
  | none => .error ("Assigned probe no longer exists", "probe missing")
  | some p =>
    if probeMissing then .error ("Assigned probe no longer exists", "probe missing")
    else if isStale p now then
      match p.lastReport with
      | none => .error ("Probe " ++ p.name ++ " has never reported",
          "probe " ++ p.name ++ " never reported")
      | some t =>
        let silent := fmtAge (now - t)
        .error ("Probe " ++ p.name ++ " silent " ++ silent ++ " (threshold " ++
          fmtAge (stalenessWindow p.intervalSeconds) ++ ")",
          "probe " ++ p.name ++ " silent " ++ silent)
    else .ok (resultWindow p.intervalSeconds, "probe " ++ p.name)

/-- The states of a host that answers. -/
def answering (latest : PingCheck) (globalLatencyThreshold : Option ℚ)
    (incidents : List OpenIncident) : HostState :=
  let observedAt := some latest.timestamp
  match host.checkErrors with
  | (label, why) :: rest =>
    let more := if rest = [] then "" else " (+" ++ toString rest.length ++ " more)"
    ⟨.warning, fmt.upper label ++ " check: " ++ why ++ more, observedAt,
      some (fmt.upper label ++ " check failing")⟩
  | [] =>
    if host.portError then
      ⟨.warning, "Service check failed", observedAt, some "service check failing"⟩
    else match incidents.find? fun i => isServiceRule i.rule with
    | some i =>
      ⟨.warning, (i.title.filter (· ≠ "")).getD "Service failing", observedAt,
        some "service failing"⟩
    | none =>
      let threshold := host.latencyThresholdMs.or globalLatencyThreshold
      match latest.latency, threshold with
      | some latency, some t =>
        if t < latency then
          ⟨.degraded, "Latency " ++ fmt.fixed latency ++ " ms > " ++ fmt.general t ++ " ms",
            observedAt, some "latency over threshold"⟩
        else named latest observedAt
      | _, _ => named latest observedAt
where
  /-- The end of the function: another incident, or none. -/
  named (latest : PingCheck) (observedAt : Option ℚ) : HostState :=
    match incidents.find? fun i => !isServiceRule i.rule && !isNonDegrading i.rule with
    | some i =>
      let no := "#" ++ toString i.id
      ⟨.degraded, Text.strip ("In incident " ++ no ++ ": " ++ i.title.getD ""), observedAt,
        some ("incident " ++ no)⟩
    | none =>
      let lat := match latest.latency with
        | some latency => " · " ++ fmt.fixed latency ++ " ms"
        | none => ""
      ⟨.up, "Check OK" ++ lat, observedAt, none⟩

/-- `evaluate`. -/
def evaluate (latest : Option PingCheck) (maint : Maintenance) (probe : Option ProbeState)
    (probeMissing : Bool) (pingInterval : Option ℤ) (globalLatencyThreshold : Option ℚ)
    (incidents : List OpenIncident) (upstreamDown : Option String) : HostState :=
  let observedAt := latest.map PingCheck.timestamp
  match excused fmt host maint observedAt with
  | some s => s
  | none =>
    match observer host now probe probeMissing pingInterval with
    | .error (reason, group) => ⟨.unknown, reason, observedAt, some group⟩
    | .ok (window, checker) =>
      match latest with
      | none => ⟨.unknown, "No check result yet", observedAt, some "no check result yet"⟩
      | some row =>
        let age := now - row.timestamp
        if window < age then
          ⟨.unknown, "No check result for " ++ fmtAge age ++ " (" ++ checker ++ ", threshold " ++
            fmtAge window ++ ")", observedAt, some "no recent check result"⟩
        else if !row.success then
          match upstreamDown.filter (· ≠ "") with
          | some parent => ⟨.down, "Not responding, behind " ++ parent ++ " (down)", observedAt,
              some ("behind " ++ parent)⟩
          | none => ⟨.down, "Last check failed", observedAt, some "check failed"⟩
        else answering fmt host row globalLatencyThreshold incidents

end Evaluate

/-! ### Many hosts -/

/-- What `host_states` loads: the newest results, the maintenance of the hosts, the probes, the two
thresholds, and the open incidents that name a host. -/
structure Loaded where
  latest : ℤ → Option PingCheck
  maint : Host → Maintenance
  probes : ℤ → Option ProbeState
  pingInterval : Option ℤ
  globalLatency : Option ℚ
  incidents : ℤ → List OpenIncident

/-- `probes.get(probe_id)`, where there is an id. -/
def Loaded.probe (w : Loaded) (host : Host) : Option ProbeState :=
  (host.probeId.filter (· ≠ 0)).bind w.probes

section HostStates

variable (fmt : Formats) (now : ℚ) (w : Loaded)

/-- The first pass, without the topology. -/
def firstState (host : Host) : HostState :=
  evaluate fmt host now (w.latest host.id) (w.maint host) (w.probe host)
    ((host.probeId.filter (· ≠ 0)).isSome && (w.probe host).isNone) w.pingInterval w.globalLatency
    (w.incidents host.id) none

/-- `_upstream_down`. -/
def upstreamDown (topology : Topology) (hosts : List Host) (down : List ℤ) (hostId : ℤ) :
    Option String :=
  ((getAncestors topology hostId).find? (· ∈ down)).map fun anc =>
    ((hosts.find? fun h => h.id = anc).map Host.name).getD ("host " ++ toString anc)

end HostStates

/-! ### The newest result -/

variable {rows : List PingCheck} {hostId : ℤ} {r : PingCheck}

/-- A result of the host that no other one is newer than. -/
def IsNewest (rows : List PingCheck) (hostId : ℤ) (r : PingCheck) : Prop :=
  r ∈ rows ∧ r.hostId = hostId ∧ ∀ r' ∈ rows, r'.hostId = hostId → r'.timestamp ≤ r.timestamp

section Evaluate

variable {fmt : Formats} {host : Host} {now : ℚ} {latest : Option PingCheck} {maint : Maintenance}
  {probe : Option ProbeState} {probeMissing : Bool} {pingInterval : Option ℤ}
  {globalLatencyThreshold : Option ℚ} {incidents : List OpenIncident} {upstream : Option String}

/-- For how long a result of the host counts, if somebody looks at it. -/
def window (host : Host) (now : ℚ) (probe : Option ProbeState) (pingInterval : Option ℤ) :
    Option ℚ :=
  if host.probeId.isNone then some (coreWindowSeconds pingInterval)
  else (probe.filter fun p => !isStale p now).map fun p => resultWindow p.intervalSeconds

/-- The result is the newest of a host that is monitored and looked at, and not too old. -/
def Current (host : Host) (now : ℚ) (latest : Option PingCheck) (maint : Maintenance)
    (probe : Option ProbeState) (pingInterval : Option ℤ) (row : PingCheck) : Prop :=
  host.enabled = true ∧ maint.active = false ∧ latest = some row ∧
    ∃ t ∈ window host now probe pingInterval, now - row.timestamp ≤ t

theorem excused_eq_none {observedAt : Option ℚ} :
    excused fmt host maint observedAt = none ↔ host.enabled = true ∧ maint.active = false := by
  unfold excused
  cases host.enabled <;> cases maint.active <;> simp

theorem isObserved_of_excused {observedAt : Option ℚ} {s : HostState}
    (h : excused fmt host maint observedAt = some s) : s.state.isObserved = false := by
  unfold excused at h
  split_ifs at h
  · obtain rfl := Option.some.inj h
    rfl
  · obtain rfl := Option.some.inj h
    cases maint.window <;> rfl

theorem observer_toOption (hmissing : probeMissing = true → probe = none) :
    (observer host now probe probeMissing pingInterval).toOption.map Prod.fst =
      window host now probe pingInterval := by
  unfold observer window
  split
  · rfl
  · cases probe with
    | none => rfl
    | some p =>
      have hnot : probeMissing = false := by
        by_contra hne
        cases hmissing (by simpa using hne)
      cases hstale : isStale p now with
      | false => simp [hnot, hstale, Except.toOption]
      | true => cases hreport : p.lastReport <;> simp [hnot, hstale, hreport, Except.toOption]

/-- A host that answers is shown so. -/
theorem answering_cases (fmt : Formats) (host : Host) (row : PingCheck) (g : Option ℚ)
    (l : List OpenIncident) :
    ((answering fmt host row g l).state = .up ∨ (answering fmt host row g l).state = .degraded ∨
      (answering fmt host row g l).state = .warning) ∧
    (answering fmt host row g l).observedAt = some row.timestamp := by
  have hnamed : ((answering.named fmt l row (some row.timestamp)).state = .up ∨
      (answering.named fmt l row (some row.timestamp)).state = .degraded ∨
      (answering.named fmt l row (some row.timestamp)).state = .warning) ∧
      (answering.named fmt l row (some row.timestamp)).observedAt = some row.timestamp := by
    unfold answering.named
    split <;> simp
  unfold answering
  split
  · simp
  · split
    · simp
    · split
      · simp
      · dsimp only
        split
        · split
          · simp
          · exact hnamed
        · exact hnamed

/-- **What is shown.** A host is shown as observed if and only if its newest result is current. It
is down exactly if that is a failure. -/
theorem evaluate_cases (hmissing : probeMissing = true → probe = none) (s : HostState)
    (hs : s = evaluate fmt host now latest maint probe probeMissing pingInterval
      globalLatencyThreshold incidents upstream) :
    (s.state.isObserved = false ∧ ∀ row, ¬Current host now latest maint probe pingInterval row) ∨
      ∃ row, Current host now latest maint probe pingInterval row ∧
        s.observedAt = some row.timestamp ∧ s.state.isObserved = true ∧
        (s.state = .down ↔ row.success = false) := by
  subst hs
  unfold evaluate
  dsimp only
  cases hexcused : excused fmt host maint (latest.map PingCheck.timestamp) with
  | some s =>
    refine .inl ⟨isObserved_of_excused hexcused, fun row h => ?_⟩
    cases hexcused.symm.trans (excused_eq_none.mpr ⟨h.1, h.2.1⟩)
  | none =>
    obtain ⟨henabled, hmaint⟩ := excused_eq_none.mp hexcused
    have hwindow : (observer host now probe probeMissing pingInterval).toOption.map Prod.fst =
        window host now probe pingInterval := observer_toOption hmissing
    dsimp only
    cases hobserver : observer host now probe probeMissing pingInterval with
    | error why =>
      refine .inl ⟨rfl, ?_⟩
      rintro row ⟨-, -, -, t, ht, -⟩
      rw [← hwindow, hobserver] at ht
      cases ht
    | ok who =>
      obtain ⟨window, checker⟩ := who
      rw [hobserver] at hwindow
      dsimp only
      cases latest with
      | none => exact .inl ⟨rfl, fun row h => by cases h.2.2.1⟩
      | some row =>
        dsimp only
        split
        · next hold =>
          refine .inl ⟨rfl, ?_⟩
          rintro row' ⟨-, -, hrow, t, ht, hage⟩
          obtain rfl := Option.some.inj hrow
          obtain rfl := Option.some.inj (hwindow.trans ht)
          exact absurd hage (not_le.mpr hold)
        · next hfresh =>
          have hcurrent : Current host now (some row) maint probe pingInterval row :=
            ⟨henabled, hmaint, rfl, window, hwindow.symm, not_lt.mp hfresh⟩
          refine .inr ⟨row, hcurrent, ?_⟩
          split
          · next hdown =>
            have hfail : row.success = false := by simpa using hdown
            cases upstream.filter (· ≠ "") <;> simp [State.isObserved, hfail]
          · next hup =>
            have hsuccess : row.success = true := by simpa using hup
            obtain ⟨hstate, hat⟩ := answering_cases fmt host row globalLatencyThreshold incidents
            rcases hstate with h | h | h <;> simp [h, hat, hsuccess, State.isObserved]

end Evaluate

/-! ### Many hosts -/

variable {fmt : Formats} {now : ℚ} {w : Loaded} {hosts : List Host}

theorem probe_eq_none {host : Host}
    (h : ((host.probeId.filter (· ≠ 0)).isSome && (w.probe host).isNone) = true) :
    w.probe host = none :=
  Option.isNone_iff_eq_none.mp (Bool.and_eq_true_iff.mp h).2

theorem firstState_cases (fmt : Formats) (now : ℚ) (w : Loaded) (host : Host) :
    ((firstState fmt now w host).state.isObserved = false ∧ ∀ row,
      ¬Current host now (w.latest host.id) (w.maint host) (w.probe host) w.pingInterval row) ∨
    ∃ row, Current host now (w.latest host.id) (w.maint host) (w.probe host) w.pingInterval row ∧
      (firstState fmt now w host).observedAt = some row.timestamp ∧
      (firstState fmt now w host).state.isObserved = true ∧
      ((firstState fmt now w host).state = .down ↔ row.success = false) :=
  evaluate_cases probe_eq_none _ rfl

/-- The checks that a probe makes in a run. -/
def checksOf (l : List Event) : List Check :=
  l.flatMap fun
    | .collect checks => checks
    | _ => []

/-- The row that is stored for a result. -/
def pingCheck (c : Check) : PingCheck := ⟨c.hostId, c.ts, c.success, c.latency⟩

/-- Whatever is stored, sent, or waits, is of a check that was made; and what is stored was of a
host that was assigned to the probe when the result arrived. -/
structure Made (checks : List Check) (s : Probes.Delivery.State) : Prop where
  pending : ∀ r ∈ s.pending.buf, r.check ∈ checks
  sent : ∀ results ∈ s.sent, ∀ r ∈ results, r.check ∈ checks
  store : ∀ r ∈ s.store, r.check ∈ checks ∧
    ∃ handling ∈ s.handled, handling.2.assigned r.check.hostId = true

theorem check_of_mem_numbered {next : ℕ} {checks : List Check} {r : CheckResult}
    (h : r ∈ numbered next checks) : r.check ∈ checks := by
  obtain ⟨c, hc, rfl⟩ := List.mem_map.mp h
  exact List.fst_mem_of_mem_zipIdx hc

theorem Made.step {checks : List Check} {s s' : Probes.Delivery.State} {e : Event}
    (h : Made checks s) (hstep : Probes.Delivery.step s e = some s') :
    Made (checks ++ checksOf [e]) s' := by
  have hleft {c : Check} (hc : c ∈ checks) : c ∈ checks ++ checksOf [e] := List.mem_append_left _ hc
  have hold : Made (checks ++ checksOf [e]) s :=
    ⟨fun r hr => hleft (h.pending r hr), fun results hres r hr => hleft (h.sent results hres r hr),
      fun r hr => ⟨hleft (h.store r hr).1, (h.store r hr).2⟩⟩
  cases e with
  | collect new =>
    obtain ⟨-, rfl⟩ := made_of_guard hstep
    refine { hold with pending := fun r hr => ?_ }
    rcases List.mem_append.mp ((s.pending.pushRound_suffix _).subset hr) with hmem | hnew
    · exact hold.pending r hmem
    · exact List.mem_append_right _ (by simpa [checksOf] using check_of_mem_numbered hnew)
  | send =>
    obtain ⟨-, rfl⟩ := made_of_guard hstep
    refine { hold with sent := fun results hres r hr => ?_ }
    rcases List.mem_append.mp hres with hmem | hnew
    · exact hold.sent results hmem r hr
    · obtain rfl := List.mem_singleton.mp hnew
      exact hold.pending r hr
  | handle request handling =>
    obtain ⟨results, hresults, rfl⟩ := Option.map_eq_some_iff.mp hstep
    refine { hold with store := fun r hr => ?_ }
    rcases List.mem_append.mp hr with hmem | hnew
    · obtain ⟨hcheck, old, hmem, hassigned⟩ := hold.store r hmem
      exact ⟨hcheck, old, List.mem_append_left _ hmem, hassigned⟩
    · obtain ⟨hr, hassigned⟩ := List.mem_filter.mp (mem_storedBy.mp hnew).2
      exact ⟨hold.sent results (List.mem_of_getElem? hresults) r hr, _,
        List.mem_append_right _ (List.mem_singleton_self _), hassigned⟩
  | answer index =>
    obtain ⟨handling, -, hrest⟩ := Option.bind_eq_some_iff.mp hstep
    obtain ⟨results, -, hrest⟩ := Option.bind_eq_some_iff.mp hrest
    obtain ⟨-, rfl⟩ := made_of_guard hrest
    exact { hold with pending := fun r hr => absurd hr (by simp [PendingResults.clear]) }
  | giveUp =>
    obtain ⟨-, rfl⟩ := made_of_guard_not hstep
    exact { hold with }
  | restart =>
    obtain rfl := Option.some.inj hstep
    exact { hold with pending := fun r hr => absurd hr (by simp [PendingResults.new]) }

/-- A probe checks host `7`, and its heartbeat is answered. -/
def sampleEvents : List Event :=
  [.collect [⟨7, true, none, 100⟩], .send, .handle 0 ⟨fun _ => true, true, false, false, false⟩,
    .answer 0]

def sampleDelivery : Probes.Delivery.State :=
  (sampleEvents.foldlM Probes.Delivery.step .init).getD .init

def sampleHost : Host := ⟨7, "nas", true, none, some 1, [], false, none⟩

def sampleLoaded : Loaded where
  latest := getLatestPing (sampleDelivery.store.map fun r => pingCheck r.check) 0
  maint _ := ⟨false, none⟩
  probes _ := some ⟨1, "site", some 60, some 110⟩
  pingInterval := some 60
  globalLatency := none
  incidents _ := []

def sampleFormats : Formats := ⟨fun _ => "", fun _ => "", fun _ => "", id⟩

/-- A state in the words of `host_status`. -/
def State.status : State → Status
  | up | degraded | warning => .up
  | down => .down
  | _ => .unknown

theorem State.status_of_not_isObserved {s : State} (h : s.isObserved = false) :
    s.status = .unknown := by
  cases s <;> first | rfl | cases h

theorem State.status_of_isObserved {s : State} (h : s.isObserved = true) {success : Bool}
    (hdown : s = .down ↔ success = false) : s.status = .ofSuccess success := by
  cases s <;> cases success <;> simp_all [State.isObserved, State.status, Status.ofSuccess]

theorem Status.ofSuccess_ne_unknown (success : Bool) : Status.ofSuccess success ≠ .unknown := by
  cases success <;> simp [Status.ofSuccess]

theorem status_firstState {host : Host} (henabled : host.enabled = true)
    (hmaint : (w.maint host).active = false) {row : PingCheck}
    (hlatest : w.latest host.id = some row) :
    (firstState fmt now w host).state.status =
      if ∃ t ∈ window host now (w.probe host) w.pingInterval, now - row.timestamp ≤ t then
        .ofSuccess row.success
      else .unknown := by
  rcases firstState_cases fmt now w host with ⟨hnot, hcurrent⟩ | ⟨row', hcurrent, -, hobs, hdown⟩
  · rw [if_neg fun h => hcurrent row ⟨henabled, hmaint, hlatest, h⟩]
    exact State.status_of_not_isObserved hnot
  · obtain rfl := Option.some.inj (hlatest.symm.trans hcurrent.2.2.1)
    rw [if_pos hcurrent.2.2.2]
    exact State.status_of_isObserved hobs hdown

/-- **The two rules agree** about a host that is monitored if and only if it has no result at all,
or its probe exists, or the core checks it and has done so within its window. So the older rule
shows the last result of a host whose probe is gone, or which the core has stopped checking. -/
theorem hostStatus_eq_iff {host : Host} (henabled : host.enabled = true)
    (hmaint : (w.maint host).active = false) :
    hostStatus ((w.latest host.id).map PingCheck.success)
        ((w.latest host.id).map fun r => now - r.timestamp) (w.probe host) now =
      (firstState fmt now w host).state.status ↔
    ∀ row, w.latest host.id = some row →
      if host.probeId = none then now - row.timestamp ≤ coreWindowSeconds w.pingInterval
      else w.probe host ≠ none := by
  cases hlatest : w.latest host.id with
  | none =>
    rcases firstState_cases fmt now w host with ⟨hnot, -⟩ | ⟨row, hcurrent, -⟩
    · rw [State.status_of_not_isObserved hnot]
      cases w.probe host <;> simp [hostStatus]
    · cases hlatest.symm.trans hcurrent.2.2.1
  | some row =>
    have hshown := Status.ofSuccess_ne_unknown row.success
    rw [status_firstState henabled hmaint hlatest]
    cases hid : host.probeId with
    | none =>
      have hprobe : w.probe host = none := by simp [Loaded.probe, hid]
      simp [hostStatus, window, hid, hprobe, hshown]
    | some id =>
      cases hprobe : w.probe host with
      | none => simp [hostStatus, window, hid, hshown]
      | some p =>
        cases hstale : isStale p now with
        | true => simp [hostStatus, window, hid, hstale, Option.filter]
        | false =>
          by_cases hold : resultWindow p.intervalSeconds < now - row.timestamp
          · have hage : ¬now ≤ resultWindow p.intervalSeconds + row.timestamp := by linarith
            simp [hostStatus, window, hid, hstale, Option.filter, hold, hage]
          · have hage : ¬resultWindow p.intervalSeconds + row.timestamp < now := by linarith
            simp [hostStatus, window, hid, hstale, Option.filter, hold, hage]

theorem hostStatus_eq_iff_sample :
    hostStatus ((sampleLoaded.latest 7).map PingCheck.success)
        ((sampleLoaded.latest 7).map fun r => 120 - r.timestamp) (sampleLoaded.probe sampleHost) 120 =
      (firstState sampleFormats 120 sampleLoaded sampleHost).state.status := by
  refine (@hostStatus_eq_iff sampleFormats 120 sampleLoaded sampleHost rfl rfl).mpr fun _ _ => ?_
  rw [if_neg (by decide)]
  decide +kernel

end Nodeglow.Hosts
