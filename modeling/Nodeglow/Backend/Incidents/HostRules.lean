import Nodeglow.Backend.Incidents.Correlation
import Nodeglow.Foundation.Run

/-!
# The rules about hosts

What the correlation rules find, from the point of view of the auto-resolve: a finding is of a rule
whose incidents end by a timeout, or of one of the five rules about hosts. An incident of a rule
about hosts has the hash of the hosts on record as its key, in every table that a tenant can have.

A tenant's table is written by the correlation cycles, by the job that watches the disk, by other
parts of the program that open incidents of their own rules, and by users.

## Main results

* `finding_cases` — what is found.
* `valid_of_run`, `recorded_of_run` — the table is valid, and its keys are those of the hosts.

Source: `backend/services/correlation.py`, lines 270–862; `backend/scheduler.py`, lines 866–935.
-/

namespace Nodeglow.Incidents

/-! ### Findings -/

/-- The rules whose incidents name hosts that the auto-resolve looks for. -/
def hostRules : List String :=
  ["host_down_syslog", "upstream_failure", "multi_host_down", "integration_host", "port_error"]

theorem startsWith_append (s t : String) : startsWith s (s ++ t) = true := by
  simp [startsWith, List.isPrefixOf_iff_prefix]

theorem not_resolvesByTimeout {rule : String} (h : rule ∈ hostRules) :
    resolvesByTimeout rule = false := by
  revert rule
  decide +kernel

/-- What a finding of a rule about hosts is about. -/
inductive AboutHosts (o : Observed) (offline : List PingHost) (f : Finding) : Prop
  | hostDown (hrule : f.rule = "host_down_syslog") (x : PingHost) (hx : x ∈ offline)
      (hids : f.hostIds = [x.id]) (herrors : 0 < o.syslogErrors x.id)
  | upstream (hrule : f.rule = "upstream_failure")
      (hids : f.hostIds = cascaded o.topology (offline.map PingHost.id))
  | multi (hrule : f.rule = "multi_host_down") (hoffline : 3 ≤ offline.length)
      (hosts : List PingHost) (hids : f.hostIds = hosts.map PingHost.id)
      (hsub : ∀ x ∈ hosts, x ∈ offline) (hnodup : offline.Nodup → hosts.Nodup)
  | integration (hrule : f.rule = "integration_host") (x : PingHost) (hx : x ∈ offline)
      (hids : f.hostIds = [x.id])
  | port (hrule : f.rule = "port_error") (x : PingHost) (hx : x ∈ o.hosts)
      (hfails : x.enabled ∧ x.portError) (hids : f.hostIds = [x.id])

section Findings

variable {o : Observed} {offline : List PingHost} {f : Finding}

theorem aboutHosts_hostDownSyslog (hf : f ∈ ruleHostDownSyslog o offline) :
    AboutHosts o offline f := by
  rcases List.mem_append.mp hf with hf | hf
  · obtain ⟨x, hx, rfl⟩ := List.mem_map.mp hf
    rw [List.mem_filter, List.mem_filter] at hx
    exact .hostDown rfl x hx.1.1 rfl (of_decide_eq_true hx.2)
  · split at hf
    · cases hf
    · obtain rfl := List.mem_singleton.mp hf
      exact .upstream rfl rfl

/-- A group is determined by its network. -/
theorem mem_bySubnet {hosts : List PingHost} {g : String × List PingHost}
    (hg : g ∈ bySubnet hosts) : g.2 = hosts.filter fun h => subnet h = g.1 := by
  obtain ⟨s, -, rfl⟩ := List.mem_map.mp hg
  rfl

theorem mem_group {hosts : List PingHost} {g : String × List PingHost} {x : PingHost}
    (hg : g ∈ bySubnet hosts) (hx : x ∈ g.2) : x ∈ hosts ∧ subnet x = g.1 := by
  rw [mem_bySubnet hg, List.mem_filter] at hx
  exact ⟨hx.1, of_decide_eq_true hx.2⟩

theorem pairwise_bySubnet (hosts : List PingHost) :
    (bySubnet hosts).Pairwise fun g g' => g.2.Disjoint g'.2 := by
  rw [bySubnet, List.pairwise_map]
  refine (List.nodup_reverse.mpr (List.nodup_dedup _)).imp fun hne x hx hx' => hne ?_
  exact (of_decide_eq_true (List.mem_filter.mp hx).2).symm.trans
    (of_decide_eq_true (List.mem_filter.mp hx').2)

theorem nodup_group {hosts : List PingHost} (hnodup : hosts.Nodup) {g : String × List PingHost}
    (hg : g ∈ bySubnet hosts) : g.2.Nodup := by
  rw [mem_bySubnet hg]
  exact hnodup.filter _

theorem mem_uncovered {hosts : List PingHost} {x : PingHost} (hx : x ∈ uncovered hosts) :
    ∃ g ∈ bySubnet hosts, g.2.length < 3 ∧ x ∈ g.2 := by
  obtain ⟨g, hg, hx⟩ := List.mem_flatMap.mp hx
  rw [List.mem_filter] at hg
  exact ⟨g, hg.1, of_decide_eq_true hg.2, hx⟩

theorem nodup_uncovered {hosts : List PingHost} (hnodup : hosts.Nodup) :
    (uncovered hosts).Nodup := by
  rw [uncovered, List.nodup_flatMap]
  exact ⟨fun g hg => nodup_group hnodup (List.mem_filter.mp hg).1,
    (pairwise_bySubnet hosts).sublist List.filter_sublist⟩

/-- The hosts that `_rule_multi_host_down` looks at. -/
def primaryHosts (o : Observed) (offline : List PingHost) : List PingHost :=
  offline.filter fun h => h.id ∈ primary o.topology (offline.map PingHost.id)

/-- What `_rule_multi_host_down` reports: the large groups, and the hosts of the small ones. -/
theorem mem_ruleMultiHostDown (hf : f ∈ ruleMultiHostDown o offline) :
    3 ≤ offline.length ∧
      ((∃ g ∈ bySubnet (primaryHosts o offline), 3 ≤ g.2.length ∧ f = multiHostDown
        ("Network issue: " ++ toString g.2.length ++ " hosts down in " ++ g.1) .critical g.2) ∨
      f = multiHostDown ("Multiple hosts down (" ++
        toString (uncovered (primaryHosts o offline)).length ++ " across subnets)") .warning
          (uncovered (primaryHosts o offline))) := by
  simp only [ruleMultiHostDown] at hf
  split at hf
  · cases hf
  · rename_i hlength
    rw [not_or, Nat.not_lt] at hlength
    refine ⟨hlength.1, ?_⟩
    rcases List.mem_append.mp hf with hf | hf
    · obtain ⟨g, hg, rfl⟩ := List.mem_map.mp hf
      rw [List.mem_filter] at hg
      exact .inl ⟨g, hg.1, of_decide_eq_true hg.2, rfl⟩
    · split at hf
      · exact .inr (List.mem_singleton.mp hf)
      · cases hf

theorem aboutHosts_multiHostDown (hf : f ∈ ruleMultiHostDown o offline) :
    AboutHosts o offline f := by
  obtain ⟨hlength, ⟨g, hg, -, rfl⟩ | rfl⟩ := mem_ruleMultiHostDown hf
  · refine .multi rfl hlength g.2 rfl (fun x hx => ?_) fun hnodup => ?_
    · exact List.mem_of_mem_filter (mem_group hg hx).1
    · exact nodup_group (hnodup.filter _) hg
  · refine .multi rfl hlength _ rfl (fun x hx => ?_) fun hnodup => ?_
    · obtain ⟨g, hg, -, hx⟩ := mem_uncovered hx
      exact List.mem_of_mem_filter (mem_group hg hx).1
    · exact nodup_uncovered (hnodup.filter _)

theorem aboutHosts_integrationHost (hf : f ∈ ruleIntegrationHost o offline) :
    AboutHosts o offline f := by
  obtain ⟨c, -, hf⟩ := List.mem_filterMap.mp hf
  obtain ⟨name, -, hf⟩ := Option.bind_eq_some_iff.mp hf
  obtain ⟨x, hx, hf⟩ := Option.bind_eq_some_iff.mp hf
  obtain rfl := Option.some.inj hf
  exact .integration rfl x (List.mem_reverse.mp (List.mem_of_find?_eq_some hx)) rfl

theorem aboutHosts_portError (hf : f ∈ rulePortError o) : AboutHosts o offline f := by
  obtain ⟨x, hx, rfl⟩ := List.mem_map.mp hf
  rw [List.mem_filter, List.mem_filter, Bool.and_eq_true] at hx
  exact .port rfl x hx.1.1 hx.1.2 rfl

theorem resolvesByTimeout_precursor (event : String) :
    resolvesByTimeout ("learned_precursor" ++ event) = true := by
  have : startsWith "learned_precursor" ("learned_precursor" ++ event) = true :=
    startsWith_append _ _
  rw [resolvesByTimeout, this, Bool.or_true, Bool.true_or]

/-- The names under which the rules other than the first four find something. -/
theorem rule_of_finding {r : Rule} (hf : f ∈ r.findings o offline)
    (hr : r ∉ [Rule.hostDownSyslog, .multiHostDown, .integrationHost, .portError]) :
    f.rule ∈ ["syslog_spike", "log_anomaly", "fleet_wide_issue", "severity_trend",
      "content_anomaly"] ∨ ∃ event, f.rule = "learned_precursor" ++ event := by
  cases r with
  | syslogSpike =>
    simp only [Rule.findings, ruleSyslogSpike] at hf
    split at hf
    · obtain rfl := List.mem_singleton.mp hf
      exact .inl (by simp [general])
    · cases hf
  | logAnomaly =>
    obtain ⟨b, -, hf⟩ := List.mem_filterMap.mp hf
    obtain ⟨host, -, hf⟩ := Option.bind_eq_some_iff.mp hf
    obtain ⟨_, -, hf⟩ := Option.bind_eq_some_iff.mp hf
    obtain rfl := Option.some.inj hf
    exact .inl (by simp)
  | fleetWide =>
    obtain ⟨issue, -, rfl⟩ := List.mem_map.mp hf
    exact .inl (by simp [general])
  | severityTrend =>
    obtain ⟨t, -, rfl⟩ := List.mem_map.mp hf
    exact .inl (by simp [general])
  | contentAnomaly =>
    obtain ⟨a, -, rfl⟩ := List.mem_map.mp hf
    exact .inl (by cases a <;> simp [general])
  | precursorObserved =>
    obtain ⟨seen, -, hf⟩ := List.mem_flatMap.mp hf
    obtain ⟨p, -, rfl⟩ := List.mem_map.mp hf
    dsimp only
    split
    · exact .inr ⟨"_" ++ p.precedesEvent, by rw [← String.append_assoc]; rfl⟩
    · exact .inr ⟨"", rfl⟩
  | _ => simp at hr

/-- The rules other than the first four have a timeout. -/
theorem timeout_of_finding {r : Rule} (hf : f ∈ r.findings o offline)
    (hr : r ∉ [Rule.hostDownSyslog, .multiHostDown, .integrationHost, .portError]) :
    resolvesByTimeout f.rule = true := by
  rcases rule_of_finding hf hr with hrule | ⟨event, hrule⟩
  · simp only [resolvesByTimeout, hrule, decide_true, Bool.true_or]
  · rw [hrule]
    exact resolvesByTimeout_precursor event

/-- **What is found.** A finding is of a rule with a timeout, or about hosts. -/
theorem finding_cases {r : Rule} (hf : f ∈ r.findings o offline) :
    resolvesByTimeout f.rule = true ∨ AboutHosts o offline f := by
  cases r with
  | hostDownSyslog => exact .inr (aboutHosts_hostDownSyslog hf)
  | multiHostDown => exact .inr (aboutHosts_multiHostDown hf)
  | integrationHost => exact .inr (aboutHosts_integrationHost hf)
  | portError => exact .inr (aboutHosts_portError hf)
  | _ => exact .inl (timeout_of_finding hf (by decide))

/-- Only `_rule_multi_host_down` finds that several hosts are down. -/
theorem mem_multiHostDown_of_rule {r : Rule} (hf : f ∈ r.findings o offline)
    (hrule : f.rule = "multi_host_down") : f ∈ ruleMultiHostDown o offline := by
  cases r with
  | multiHostDown => exact hf
  | hostDownSyslog =>
    rcases List.mem_append.mp hf with hf | hf
    · obtain ⟨x, -, rfl⟩ := List.mem_map.mp hf
      exact absurd hrule (by simp)
    · split at hf
      · cases hf
      · obtain rfl := List.mem_singleton.mp hf
        exact absurd hrule (by simp)
  | integrationHost =>
    obtain ⟨c, -, hf⟩ := List.mem_filterMap.mp hf
    obtain ⟨name, -, hf⟩ := Option.bind_eq_some_iff.mp hf
    obtain ⟨x, hx, hf⟩ := Option.bind_eq_some_iff.mp hf
    obtain rfl := Option.some.inj hf
    exact absurd hrule (by simp)
  | portError =>
    obtain ⟨x, hx, rfl⟩ := List.mem_map.mp hf
    exact absurd hrule (by simp)
  | _ =>
    have htimeout := timeout_of_finding hf (by decide)
    rw [hrule] at htimeout
    exact absurd htimeout (by decide +kernel)

/-- The findings of one rule about hosts name hosts of the tenant, each once. -/
theorem AboutHosts.hostIds (hf : AboutHosts o offline f) (hoffline : offline.Sublist o.hosts) :
    f.hostIds.Nodup ∧ ∀ id ∈ f.hostIds, 0 < id := by
  have hpos : ∀ x ∈ offline, 0 < x.id := fun x hx => o.pos x (hoffline.subset hx)
  have hnodup : (offline.map PingHost.id).Nodup := o.nodup.sublist (hoffline.map _)
  have hsingle : ∀ x ∈ o.hosts, [x.id].Nodup ∧ ∀ id ∈ [x.id], 0 < id := fun x hx =>
    ⟨List.nodup_singleton _, by simpa using o.pos x hx⟩
  cases hf with
  | hostDown _ x hx hids => exact hids ▸ hsingle x (hoffline.subset hx)
  | upstream _ hids =>
    rw [hids]
    refine ⟨hnodup.filter _, fun id hid => ?_⟩
    obtain ⟨x, hx, rfl⟩ := List.mem_map.mp (List.mem_filter.mp hid).1
    exact hpos x hx
  | multi _ _ hosts hids hsub hnodup' =>
    rw [hids]
    refine ⟨(hnodup' hnodup.of_map).map_on fun x hx y hy hxy => ?_, fun id hid => ?_⟩
    · exact List.inj_on_of_nodup_map hnodup (hsub x hx) (hsub y hy) hxy
    · obtain ⟨x, hx, rfl⟩ := List.mem_map.mp hid
      exact hpos x (hsub x hx)
  | integration _ x hx hids => exact hids ▸ hsingle x (hoffline.subset hx)
  | port _ x hx _ hids => exact hids ▸ hsingle x hx

theorem rule_mem_hostRules (hf : AboutHosts o offline f) : f.rule ∈ hostRules := by
  cases hf <;> simp [hostRules, *]

/-- No rule about hosts and no rule with a timeout is one of the integration rules. -/
theorem rule_ne_of_mem_allFindings {c : Cycle} {f : Finding} (hf : f ∈ c.allFindings) :
    f.rule ≠ alertRule ∧ f.rule ≠ failedRule := by
  obtain ⟨r, hf⟩ := Cycle.mem_allFindings.mp hf
  rcases finding_cases hf with htimeout | habout
  · constructor <;> intro heq <;> rw [heq] at htimeout <;> revert htimeout <;> decide +kernel
  · have hhost := rule_mem_hostRules habout
    constructor <;> intro heq <;> rw [heq] at hhost <;> revert hhost <;> decide

/-- Up to the auto-resolve, what a cycle has opened or refreshed is in the table, and open. -/
theorem traced_beforeResolve {h : Digests} {tenant : ℕ} {c : Cycle} {s : Store} {tracker : Tracker}
    (hvalid : s.Valid) :
    Traced h.digest16 c.allFindings (beforeResolve h tenant c s tracker).2 := by
  have hstart : Traced h.digest16 c.allFindings (.start s tracker) :=
    ⟨hvalid, by simp [Progress.start], by simp [Progress.start]⟩
  have hrun : Traced h.digest16 c.allFindings (afterRules h tenant c s tracker).2 :=
    invariant_runRules (I := Traced h.digest16 c.allFindings) (fun r _ q hq =>
      hq.runRule fun f hf => Cycle.mem_allFindings.mpr ⟨r, hf⟩) hstart
  obtain ⟨g, hstore, hg, hother⟩ := exists_orphansStep (h := h) (c := c) hrun.valid
  have htouched : (beforeResolve h tenant c s tracker).2.touched =
      (afterRules h tenant c s tracker).2.touched := by
    simp only [beforeResolve, orphansStep]
    split <;> rfl
  refine ⟨valid_beforeResolve hvalid, ?_, ?_⟩ <;> rw [htouched]
  · exact hrun.mem
  · intro x hx
    obtain ⟨i, hi, hid, hhas, hhosts⟩ := hrun.row x hx
    have hrule := rule_ne_of_mem_allFindings (hrun.mem x hx)
    rw [← hhas.2.1] at hrule
    refine ⟨i, ?_, hid, hhas, hhosts⟩
    simp only [beforeResolve]
    rw [hstore]
    exact List.mem_map.mpr ⟨i, hi, hother i hi hrule.1 hrule.2⟩

end Findings

/-! ### The hosts on record -/

theorem affectedHostIds_of_nodup {ids : List ℕ} (hnodup : ids.Nodup) (hpos : ∀ id ∈ ids, 0 < id) :
    affectedHostIds ids = ids.insertionSort (· ≤ ·) := by
  rw [affectedHostIds, List.filter_eq_self.mpr (by simpa using hpos), hnodup.dedup]

theorem hostIdsHash_affectedHostIds (digest : String → String) {ids : List ℕ} (hnodup : ids.Nodup)
    (hpos : ∀ id ∈ ids, 0 < id) :
    hostIdsHash digest (affectedHostIds ids) = hostIdsHash digest ids := by
  rw [affectedHostIds_of_nodup hnodup hpos, hostIdsHash, hostIdsHash,
    (List.pairwise_insertionSort (· ≤ ·) ids).insertionSort_eq]

/-! ### What happens to a tenant's table -/

/-- `DISK_WARNING_PCT` and `DISK_CRITICAL_PCT`. -/
def diskWarningPct : ℚ := 80

def diskCriticalPct : ℚ := 90

/-- An incident about the disk as the job opens it. -/
def diskIncident (digest : String → String) (now : ℚ) (severity : Severity) (title : String)
    (id : ℕ) : Incident where
  id := id
  rule := "disk_space"
  title := title
  severity := severity
  status := .opened
  hostIdsHash := some (digest "self-disk")
  hostIds := some []
  updatedAt := now
  resolvedAt := none
  precursorTemplate := none

/-- An incident about the disk as the job updates it. -/
def Incident.updateDisk (now : ℚ) (severity : Severity) (title : String) (i : Incident) :
    Incident :=
  { i with
    severity := if severity = .critical then .critical else i.severity
    title := title
    updatedAt := now }

/-- `_disk_space_incident`. -/
def diskSpaceIncident (digest : String → String) (now usedPct : ℚ) (title : String) (s : Store) :
    Store :=
  let existing := s.rows.find? fun i => i.live ∧ i.rule = "disk_space"
  if usedPct < diskWarningPct then
    match existing with
    | none => s
    | some i => s.modify i.id (Incident.resolve now)
  else
    let severity := if diskCriticalPct ≤ usedPct then Severity.critical else .warning
    match existing with
    | some i => s.modify i.id (Incident.updateDisk now severity title)
    | none =>
      { rows := s.rows ++ [diskIncident digest now severity title s.next], next := s.next + 1 }

/-- What happens to a tenant's table: a correlation cycle, with whatever streaks it finds; an
evaluation of another part of the program, under a rule of its own, or a transaction of it that is
rolled back; the job that watches the disk; and what users do. -/
inductive TenantEvent
  | cycle (c : Cycle) (tracker : Tracker)
  | evaluated (now : ℚ) (e : Evaluation) (hrule : e.rule ∉ hostRules)
  | rolledBack (lost : ℕ)
  | disk (now usedPct : ℚ) (title : String)
  | resolved (now : ℚ) (id : ℕ)
  | acknowledged (now : ℚ) (id : ℕ)

/-- The table after an event. An evaluation that raises is rolled back. -/
def TenantEvent.apply (h : Digests) (tenant : ℕ) (s : Store) : TenantEvent → Store
  | .cycle c tracker => (runCorrelation h tenant c s tracker).2.store
  | .evaluated now e _ => ((findOrCreate h.digest16 now e s).map Prod.fst).getD s
  | .rolledBack lost => { s with next := s.next + lost }
  | .disk now usedPct title => diskSpaceIncident h.digest16 now usedPct title s
  | .resolved now id => s.modify id (Incident.resolve now)
  | .acknowledged now id => s.modify id (Incident.acknowledge now)

/-- The tables that a tenant has had. -/
abbrev TenantRun (h : Digests) (tenant : ℕ) : Store → List TenantEvent → Store → Prop :=
  Run fun s event s' => s' = event.apply h tenant s

section TenantRuns

variable {h : Digests} {tenant : ℕ} {s s' : Store} {events : List TenantEvent}

theorem keeps_updateDisk (now : ℚ) (severity : Severity) (title : String) :
    Keeps (Incident.updateDisk now severity title) :=
  ⟨fun _ => rfl, fun _ => rfl, fun _ => rfl, fun _ h => h⟩

/-- The job changes an incident about the disk, or it opens one. -/
theorem diskSpaceIncident_cases (digest : String → String) (now usedPct : ℚ) (title : String)
    (s : Store) :
    diskSpaceIncident digest now usedPct title s = s ∨
    (∃ i ∈ s.rows, i.rule = "disk_space" ∧
      (diskSpaceIncident digest now usedPct title s = s.modify i.id (Incident.resolve now) ∨
        ∃ severity, diskSpaceIncident digest now usedPct title s =
          s.modify i.id (Incident.updateDisk now severity title))) ∨
    ((∀ i ∈ s.rows, ¬ (i.live = true ∧ i.rule = "disk_space")) ∧
      ∃ severity, diskSpaceIncident digest now usedPct title s =
        { rows := s.rows ++ [diskIncident digest now severity title s.next]
          next := s.next + 1 }) := by
  unfold diskSpaceIncident
  cases hfound : s.rows.find? fun i => i.live ∧ i.rule = "disk_space" with
  | none =>
    split
    · exact .inl rfl
    · exact .inr (.inr ⟨by simpa using hfound, _, rfl⟩)
  | some i =>
    have hi := List.mem_of_find?_eq_some hfound
    have hrule : i.live = true ∧ i.rule = "disk_space" := by
      simpa using List.find?_some hfound
    split
    · exact .inr (.inl ⟨i, hi, hrule.2, .inl rfl⟩)
    · exact .inr (.inl ⟨i, hi, hrule.2, .inr ⟨_, rfl⟩⟩)

/-- Every event keeps the table valid. -/
theorem valid_apply (hvalid : s.Valid) (event : TenantEvent) :
    (event.apply h tenant s).Valid := by
  cases event with
  | cycle c tracker => exact valid_runCorrelation hvalid
  | evaluated now e _ =>
    obtain ⟨r, hr⟩ := hvalid.exists_findOrCreate h.digest16 now e
    rw [TenantEvent.apply, hr]
    exact hvalid.findOrCreate hr
  | rolledBack lost => exact hvalid.skip lost
  | disk now usedPct title =>
    rw [TenantEvent.apply]
    rcases diskSpaceIncident_cases h.digest16 now usedPct title s with
      hs | ⟨i, -, -, hs | ⟨severity, hs⟩⟩ | ⟨hnone, severity, hs⟩ <;> rw [hs]
    · exact hvalid
    · exact hvalid.modify (keeps_resolve now)
    · exact hvalid.modify (keeps_updateDisk now severity title)
    · refine hvalid.add rfl fun j hj rule key hnew hhas => hnone j hj ⟨hhas.1, ?_⟩
      exact hhas.2.1.trans hnew.2.1.symm
  | resolved now id => exact hvalid.modify (keeps_resolve now)
  | acknowledged now id => exact hvalid.modify (keeps_acknowledge now)

theorem valid_of_run {next : ℕ} (hrun : TenantRun h tenant (.empty next) events s) : s.Valid :=
  hrun.invariant (fun _ event _ hs hs' => hs' ▸ valid_apply hs event) (valid_empty next)

/-! ### The hosts on record are those of the key -/

/-- The hosts on record of an incident of a rule about hosts have its key. -/
def Incident.Recorded (digest : String → String) (i : Incident) : Prop :=
  i.rule ∈ hostRules → ∀ ids, i.hostIds = some ids →
    i.hostIdsHash = some (Incidents.hostIdsHash digest ids)

theorem Incident.Recorded.congr {digest : String → String} {i j : Incident}
    (hi : i.Recorded digest) (hrule : j.rule = i.rule) (hhash : j.hostIdsHash = i.hostIdsHash)
    (hhosts : j.hostIds = i.hostIds) : j.Recorded digest := by
  intro hj ids hids
  rw [hhash]
  exact hi (hrule ▸ hj) ids (hhosts ▸ hids)

/-- A finding of a rule about hosts is about hosts. -/
theorem Cycle.aboutHosts {c : Cycle} {f : Finding} (hf : f ∈ c.allFindings)
    (hrule : f.rule ∈ hostRules) : AboutHosts c.observed c.offline f := by
  obtain ⟨r, hf⟩ := Cycle.mem_allFindings.mp hf
  refine (finding_cases hf).resolve_left ?_
  rw [not_resolvesByTimeout hrule]
  exact Bool.false_ne_true

theorem Cycle.hash_recorded {c : Cycle} {f : Finding} (digest : String → String)
    (hf : f ∈ c.allFindings) (hrule : f.rule ∈ hostRules) :
    hostIdsHash digest (affectedHostIds f.hostIds) = f.evaluation.hash digest := by
  obtain ⟨hnodup, hpos⟩ := (Cycle.aboutHosts hf hrule).hostIds (offlineHosts_sublist _ _)
  exact hostIdsHash_affectedHostIds digest hnodup hpos

theorem recorded_runCorrelation {c : Cycle} {tracker : Tracker} (hvalid : s.Valid)
    (hs : ∀ i ∈ s.rows, i.Recorded h.digest16) :
    ∀ i ∈ (runCorrelation h tenant c s tracker).2.store.rows, i.Recorded h.digest16 := by
  by_cases hsettings : c.settings = none
  · simpa [runCorrelation, hsettings, Progress.start] using hs
  -- The rules record the hosts whose hash is the key.
  have hrules : ∀ i ∈ (afterRules h tenant c s tracker).2.store.rows, i.Recorded h.digest16 := by
    refine forall_row_of_writes (R := fun i => i.Recorded h.digest16) hvalid writes_afterRules
      (fun _ => RuleWrite.regular) ?_ ?_ ?_ hs
    · rintro now e id ⟨f, hf, rfl⟩ hrule ids hids
      obtain rfl := Option.some.inj hids
      exact congrArg some (Cycle.hash_recorded h.digest16 hf hrule).symm
    · rintro now e i ⟨f, hf, rfl⟩ hhas - hrule ids hids
      obtain rfl := Option.some.inj hids
      have hfrule : f.rule ∈ hostRules := by
        rw [← show i.rule = f.rule from hhas.2.1]
        exact hrule
      exact hhas.2.2.trans (congrArg some (Cycle.hash_recorded h.digest16 hf hfrule).symm)
    · intro f i hf hi
      obtain ⟨t, ht⟩ := hf i
      exact hi.congr (by rw [ht]) (by rw [ht]) (by rw [ht])
  have hvalid' : (afterRules h tenant c s tracker).2.store.Valid := valid_afterRules hvalid
  have hbefore : ∀ i ∈ (beforeResolve h tenant c s tracker).2.store.rows,
      i.Recorded h.digest16 := by
    obtain ⟨g, hstore, hg, hother⟩ := exists_orphansStep (h := h) (c := c) hvalid'
    intro j hj
    simp only [beforeResolve] at hj
    rw [hstore] at hj
    obtain ⟨i, hi, rfl⟩ := List.mem_map.mp hj
    intro hrule
    have hne : i.rule ≠ alertRule ∧ i.rule ≠ failedRule := by
      rw [hg.rule] at hrule
      constructor <;> rintro heq <;> rw [heq] at hrule <;> revert hrule <;> decide
    rw [hother i hi hne.1 hne.2] at hrule ⊢
    exact hrules i hi hrule
  rw [store_runCorrelation hsettings, store_resolveStep]
  split
  · intro j hj
    obtain ⟨i, hi, rfl⟩ := List.mem_map.mp hj
    split
    · exact (hbefore i hi).congr rfl rfl rfl
    · exact hbefore i hi
  · exact hbefore

theorem recorded_modify {digest : String → String} {f : Incident → Incident} {id : ℕ}
    (hf : ∀ i : Incident, i.Recorded digest → (f i).Recorded digest)
    (hs : ∀ i ∈ s.rows, i.Recorded digest) : ∀ i ∈ (s.modify id f).rows, i.Recorded digest := by
  intro j hj
  rcases Store.mem_modify.mp hj with ⟨i, hi, -, rfl⟩ | ⟨hj, -⟩
  · exact hf i (hs i hi)
  · exact hs j hj

theorem recorded_apply (hvalid : s.Valid) (hs : ∀ i ∈ s.rows, i.Recorded h.digest16)
    (event : TenantEvent) : ∀ i ∈ (event.apply h tenant s).rows, i.Recorded h.digest16 := by
  have hresolve : ∀ now, ∀ i : Incident, i.Recorded h.digest16 →
      (i.resolve now).Recorded h.digest16 := fun _ _ hi => hi.congr rfl rfl rfl
  cases event with
  | cycle c tracker => exact recorded_runCorrelation hvalid hs
  | evaluated now e hrule =>
    rw [TenantEvent.apply]
    cases hfind : findOrCreate h.digest16 now e s with
    | none => exact hs
    | some r =>
      rcases findOrCreate_cases hfind with ⟨i, hi, hhas, -, hr, -⟩ | ⟨-, -, hr, -⟩ <;>
        simp only [Option.map_some, Option.getD_some, hr]
      -- The rule is not one about hosts.
      · intro j hj
        rcases Store.mem_modify.mp hj with ⟨k, hk, hid, rfl⟩ | ⟨hj, -⟩
        · obtain rfl := hvalid.eq_of_id hk hi hid
          exact fun hhost => absurd (hhas.2.1 ▸ hhost) hrule
        · exact hs j hj
      · intro j hj
        rcases List.mem_append.mp hj with hj | hj
        · exact hs j hj
        · rw [List.mem_singleton.mp hj]
          exact fun hhost => absurd hhost hrule
  | rolledBack lost => exact hs
  | disk now usedPct title =>
    rw [TenantEvent.apply]
    rcases diskSpaceIncident_cases h.digest16 now usedPct title s with
      hd | ⟨i, -, -, hd | ⟨severity, hd⟩⟩ | ⟨-, severity, hd⟩ <;> rw [hd]
    · exact hs
    · exact recorded_modify (hresolve now) hs
    · exact recorded_modify (fun _ hi => hi.congr rfl rfl rfl) hs
    · intro j hj
      rcases List.mem_append.mp hj with hj | hj
      · exact hs j hj
      · rw [List.mem_singleton.mp hj]
        exact fun hhost => absurd (show "disk_space" ∈ hostRules from hhost) (by decide)
  | resolved now id => exact recorded_modify (hresolve now) hs
  | acknowledged now id =>
    refine recorded_modify (fun i hi => ?_) hs
    unfold Incident.acknowledge
    split
    · exact hi.congr rfl rfl rfl
    · exact hi

/-- In every table that a tenant has had, the hosts on record have the key. -/
theorem recorded_of_run {next : ℕ} (hrun : TenantRun h tenant (.empty next) events s) :
    ∀ i ∈ s.rows, i.Recorded h.digest16 := by
  refine (hrun.invariant (I := fun s => s.Valid ∧ ∀ i ∈ s.rows, i.Recorded h.digest16)
    (fun s event s' hs hs' => ?_) ⟨valid_empty next, by simp [Store.empty]⟩).2
  subst hs'
  exact ⟨valid_apply hs.1 event, recorded_apply hs.1 hs.2 event⟩

end TenantRuns

end Nodeglow.Incidents
