import Nodeglow.Backend.Incidents.CorrelationRules
import Nodeglow.Backend.Incidents.Streaks

/-!
# Correlation cycles

One cycle of the correlation engine for a tenant: the rules, each in a transaction of its own, then
the incidents of configs that are gone, and then the auto-resolve. A rule that raises, or whose
commit fails, is rolled back, while the streaks it has counted and the notifications it has sent
stay. A complete cycle ends by pruning the streaks, and any other one only forgets the matches.

## Main results

* `report_cases` — what a finding does.
* `writes_runRules`, `writes_afterRules` — what a cycle does to the table is a sequence of
  evaluations of its findings and of changes of rows.

Source: `backend/services/correlation.py`, lines 865–1161.
-/

namespace Nodeglow.Incidents

/-! ### Findings -/

/-- The table of the open transaction, the streaks, the notifications that are sent, and the
findings with the incidents that they opened or refreshed. -/
structure Progress where
  store : Store
  tracker : Tracker
  sent : List Note
  touched : List (Finding × ℕ)

/-- The start of a cycle. -/
def Progress.start (s : Store) (tracker : Tracker) : Progress where
  store := s
  tracker := tracker
  sent := []
  touched := []

/-- The precursor rule leaves the text of its template on an incident that has none. -/
def Incident.addTemplate (template : Option String) (i : Incident) : Incident :=
  if i.precursorTemplate.all (· = "") then
    { i with precursorTemplate := template.or i.precursorTemplate }
  else i

/-- Where a rule raises: after this number of findings, and possibly after it has counted the next
one. A commit that fails is a rule that raises after its last finding. `lost` numbers of the
sequence are drawn for nothing. -/
inductive RuleFault
  | never
  | raises (handled : ℕ) (counted : Bool) (lost : ℕ)
deriving DecidableEq, Repr

section Findings

variable (digest : String → String) (tenant minCycles : ℕ) (now : ℚ)

/-- The key of the streak of a finding. -/
def Finding.key (f : Finding) : HitKey := hitKey digest tenant f.trackRule f.trackHosts

/-- What a rule does with a finding, and whether it raises. -/
def report (f : Finding) (p : Progress) : Bool × Progress :=
  let hit := trackRuleHit digest tenant f.trackRule f.trackHosts minCycles p.tracker
  if hit.1 = false then (false, { p with tracker := hit.2 })
  else
    match findOrCreate digest now f.evaluation p.store with
    | none => (true, { p with tracker := hit.2 })
    | some (store, id, notes) =>
      (false,
        { store := store.modify id (Incident.addTemplate f.template)
          tracker := hit.2
          sent := p.sent ++ notes
          touched := p.touched ++ [(f, id)] })

/-- The loop of a rule. -/
def reportAll : List Finding → Progress → Bool × Progress
  | [], p => (false, p)
  | f :: fs, p =>
    let out := report digest tenant minCycles now f p
    if out.1 then out else reportAll fs out.2

/-- The loop of a rule that may raise on the way. -/
def reportUntil (findings : List Finding) (p : Progress) : RuleFault → Bool × Progress
  | .never => reportAll digest tenant minCycles now findings p
  | .raises handled counted _ =>
    let out := reportAll digest tenant minCycles now (findings.take handled) p
    if out.1 then out
    else
      (true, { out.2 with
        tracker := if counted then
            trackAll ((findings.drop handled).take 1 |>.map (Finding.key digest tenant))
              out.2.tracker
          else out.2.tracker })

/-- The numbers that a rule draws for nothing. -/
def RuleFault.lost : RuleFault → ℕ
  | never => 0
  | raises _ _ lost => lost

/-- `_run_rule`: whether the rule is ok, and what is left of it. -/
def runRule (findings : List Finding) (fault : RuleFault) (p : Progress) : Bool × Progress :=
  let out := reportUntil digest tenant minCycles now findings p fault
  if out.1 then
    (false,
      { store := { p.store with next := out.2.store.next + fault.lost }
        tracker := out.2.tracker
        sent := out.2.sent
        touched := p.touched })
  else (true, out.2)

end Findings

/-! ### Auto-resolve -/

/-- `_timeout_resolve_reason(rule) is not None`. -/
def resolvesByTimeout (rule : String) : Bool :=
  rule ∈ ["syslog_spike", "log_anomaly", "fleet_wide_issue", "severity_trend", "content_anomaly"] ||
    startsWith "learned_precursor" rule || startsWith "alert_rule_" rule

/-- What `_auto_resolve` looks up itself, after the rules: the syslog errors of its own last five
minutes, and the enabled hosts that have a port error by then. -/
structure Lookups where
  syslogErrors : ℕ → ℕ
  portErrors : List ℕ

/-- What `_auto_resolve` asks of an incident without a timeout, by its rule and its key. -/
def hostsAreBack (digest : String → String) (l : Lookups) (offline : List PingHost)
    (rule key : String) : Bool :=
  if rule = "host_down_syslog" then
    !offline.any fun h => hostIdsHash digest [h.id] = key && 0 < l.syslogErrors h.id
  else if rule = "multi_host_down" then offline.length < 3
  else if rule = "integration_host" then !offline.any fun h => hostIdsHash digest [h.id] = key
  else if rule = "port_error" then
    !l.portErrors.any fun id => hostIdsHash digest [id] = key
  else true

/-- Whether `_auto_resolve` resolves an open incident. -/
def shouldResolve (digest : String → String) (l : Lookups) (offline : List PingHost) (now : ℚ)
    (i : Incident) : Bool :=
  if resolvesByTimeout i.rule then i.updatedAt < now - 10
  else if i.rule ∈ ["self_check", "agent_service", alertRule, failedRule] then false
  else
    match i.hostIdsHash.filter (· ≠ "") with
    | none => false
    | some key => hostsAreBack digest l offline i.rule key

/-- The table after `_auto_resolve`. -/
def autoResolve (digest : String → String) (l : Lookups) (offline : List PingHost) (now : ℚ)
    (s : Store) : Store :=
  s.change fun i =>
    if i.live && shouldResolve digest l offline now i then i.resolve now else i

/-- The notifications of `_auto_resolve`, when it goes through `count` of the open incidents. -/
def resolveNotes (digest : String → String) (l : Lookups) (offline : List PingHost) (now : ℚ)
    (count : ℕ) (s : Store) : List Note :=
  (((s.rows.filter Incident.live).take count).filter (shouldResolve digest l offline now)).map
    fun i => ⟨"✅ Resolved: " ++ i.title, .info, i.id⟩

/-- A host whose last pings have failed. -/
def PingHost.down (id : ℕ) (hostname : String) : PingHost where
  id := id
  name := hostname
  hostname := hostname
  enabled := true
  portError := false
  failedChecks := []
  inMaintenance := false
  failedPings := 3

theorem pos_noHosts : ∀ h ∈ ([] : List PingHost), 0 < h.id := by decide

theorem nodup_oneHost : ([PingHost.down 1 "10.0.0.1"].map PingHost.id).Nodup := by decide

theorem pos_oneHost : ∀ h ∈ [PingHost.down 1 "10.0.0.1"], 0 < h.id := by decide

theorem nodup_threeHosts :
    ([.down 1 "10.0.0.1", .down 2 "10.0.0.2", .down 3 "10.0.0.3"].map PingHost.id).Nodup := by
  decide

theorem pos_threeHosts :
    ∀ h ∈ [PingHost.down 1 "10.0.0.1", .down 2 "10.0.0.2", .down 3 "10.0.0.3"], 0 < h.id := by
  decide

/-! ### One cycle -/

/-- What a cycle meets. The settings are missing when reading them raises, and each of the two
numbers is missing when its text is not a number. -/
structure Cycle where
  observed : Observed
  lookups : Lookups
  settings : Option (Option ℤ × Option ℤ)
  /-- The lookup of the offline hosts succeeds. -/
  offlineKnown : Bool
  fault : Rule → RuleFault
  /-- Resolving the incidents of configs that are gone raises, or its commit fails. -/
  orphansRaise : Bool
  /-- The auto-resolve raises after this number of incidents, or its commit fails. -/
  resolveFault : Option ℕ
  /-- The times of the rules and of the auto-resolve, in minutes. -/
  now : ℚ
  resolveAt : ℚ

/-- `_load_correlation_settings`, with the defaults for texts that are not numbers. -/
def loadSettings (settings : Option ℤ × Option ℤ) : ℕ × ℕ :=
  (max 1 (settings.1.getD 3).toNat, max 1 (settings.2.getD 2).toNat)

namespace Cycle

/-- `min_failures`, where it is known. -/
def minFailures (c : Cycle) : ℕ := (loadSettings (c.settings.getD (none, none))).1

/-- `min_cycles`, where it is known. -/
def minCycles (c : Cycle) : ℕ := (loadSettings (c.settings.getD (none, none))).2

/-- The offline hosts, where they are known. -/
def offline (c : Cycle) : List PingHost := c.observed.offlineHosts c.minFailures

/-- What a rule finds in the cycle. -/
def findings (c : Cycle) (r : Rule) : List Finding := r.findings c.observed c.offline

/-- The rule is run. -/
def runs (c : Cycle) (r : Rule) : Bool := !r.needsOffline || c.offlineKnown

/-- A cycle in which nothing raises and nothing but hosts is observed. -/
def ofHosts (hosts : List PingHost) (nodup : (hosts.map PingHost.id).Nodup)
    (pos : ∀ h ∈ hosts, 0 < h.id) (topology : List (ℕ × Option ℕ)) (minCycles : ℤ) (now : ℚ) :
    Cycle where
  observed :=
    { hosts := hosts
      nodup := nodup
      pos := pos
      lower := Text.asciiLower
      syslogErrors := fun _ => 0
      topology := topology
      configs := []
      recentErrors := 0
      hourlyErrors := 0
      baselines := []
      logCounts := fun _ => 0
      fleetIssues := []
      logTemplates := []
      anomalies := []
      seenTemplates := []
      precursors := []
      minConfidence := 0
      minOccurrences := 0
      blacklisted := fun _ => false }
  lookups :=
    { syslogErrors := fun _ => 0
      portErrors := (hosts.filter fun h => h.enabled && h.portError).map PingHost.id }
  settings := some (none, some minCycles)
  offlineKnown := true
  fault := fun _ => .never
  orphansRaise := false
  resolveFault := none
  now := now
  resolveAt := now

end Cycle

section Cycle

variable (h : Digests) (tenant : ℕ) (c : Cycle)

/-- The transactions of some of the rules, and whether they are all ok. -/
def runRules : List Rule → Bool × Progress → Bool × Progress
  | [], p => p
  | r :: rs, p =>
    if c.runs r then
      let out := runRule h.digest16 tenant c.minCycles c.now (c.findings r) (c.fault r) p.2
      runRules rs (p.1 && out.1, out.2)
    else runRules rs p

/-- The transaction that resolves the incidents of configs that are gone. -/
def orphansStep (p : Progress) : Bool × Progress :=
  if c.orphansRaise then (false, p)
  else
    let s := resolveOrphans h c.now ((c.observed.configs.filter MonitoredConfig.enabled).map
      MonitoredConfig.config) { store := p.store, queued := [] }
    (true, { p with store := s.store, sent := p.sent ++ s.queued })

/-- The transaction of the auto-resolve. -/
def resolveStep (p : Progress) : Bool × Progress :=
  let notes := fun count => resolveNotes h.digest16 c.lookups c.offline c.resolveAt count p.store
  if c.offlineKnown = false then (true, p)
  else
    match c.resolveFault with
    | some count => (false, { p with sent := p.sent ++ notes count })
    | none =>
      (true, { p with
        store := autoResolve h.digest16 c.lookups c.offline c.resolveAt p.store
        sent := p.sent ++ notes p.store.rows.length })

/-- The rules of a cycle. -/
def afterRules (s : Store) (tracker : Tracker) : Bool × Progress :=
  runRules h tenant c rules (c.offlineKnown, .start s tracker)

/-- A cycle up to the auto-resolve, and whether everything is ok. -/
def beforeResolve (s : Store) (tracker : Tracker) : Bool × Progress :=
  let out := afterRules h tenant c s tracker
  let orphans := orphansStep h c out.2
  (out.1 && orphans.1, orphans.2)

/-- `run_correlation`: whether the cycle is complete, and the state after it. -/
def runCorrelation (s : Store) (tracker : Tracker) : Bool × Progress :=
  if c.settings = none then
    (false, .start s (clearCycleHits tenant tracker))
  else
    let before := beforeResolve h tenant c s tracker
    let resolved := resolveStep h c before.2
    let complete := before.1 && resolved.1
    (complete, { resolved.2 with
      tracker := if complete then pruneStaleHits tenant resolved.2.tracker
        else clearCycleHits tenant resolved.2.tracker })

end Cycle

/-! ### What a rule does to the table -/

section Writes

variable {digest : String → String} {tenant minCycles : ℕ} {now : ℚ} {f : Finding}
  {fs : List Finding} {p : Progress} {fault : RuleFault}

/-- **What a finding does.** It is counted. If its streak is long enough, it then opens or refreshes
an incident, unless there are several that it could refresh. -/
theorem report_cases (digest : String → String) (tenant minCycles : ℕ) (now : ℚ) (f : Finding)
    (p : Progress) :
    (p.tracker.counts (f.key digest tenant) + 1 < minCycles ∧
      report digest tenant minCycles now f p =
        (false, { p with tracker := p.tracker.hit (f.key digest tenant) })) ∨
    (minCycles ≤ p.tracker.counts (f.key digest tenant) + 1 ∧
      ((findOrCreate digest now f.evaluation p.store = none ∧
        report digest tenant minCycles now f p =
          (true, { p with tracker := p.tracker.hit (f.key digest tenant) })) ∨
      ∃ store id notes, findOrCreate digest now f.evaluation p.store = some (store, id, notes) ∧
        report digest tenant minCycles now f p =
          (false,
            { store := store.modify id (Incident.addTemplate f.template)
              tracker := p.tracker.hit (f.key digest tenant)
              sent := p.sent ++ notes
              touched := p.touched ++ [(f, id)] }))) := by
  have hhit : trackRuleHit digest tenant f.trackRule f.trackHosts minCycles p.tracker =
      (decide (minCycles ≤ p.tracker.counts (f.key digest tenant) + 1),
        p.tracker.hit (f.key digest tenant)) := by
    refine Prod.ext (decide_eq_decide.mpr ?_) rfl
    simp [Finding.key, Tracker.hit]
  unfold report
  rw [hhit]
  by_cases hdue : minCycles ≤ p.tracker.counts (f.key digest tenant) + 1
  · refine .inr ⟨hdue, ?_⟩
    cases hs : findOrCreate digest now f.evaluation p.store with
    | none => exact .inl ⟨rfl, by simp [hdue]⟩
    | some r => exact .inr ⟨r.1, r.2.1, r.2.2, rfl, by simp [hdue]⟩
  · exact .inl ⟨Nat.lt_of_not_le hdue, by simp [hdue]⟩

/-- A finding is counted in any case. -/
theorem tracker_report :
    (report digest tenant minCycles now f p).2.tracker = p.tracker.hit (f.key digest tenant) := by
  rcases report_cases digest tenant minCycles now f p with
    ⟨-, h⟩ | ⟨-, ⟨-, h⟩ | ⟨store, id, notes, -, h⟩⟩ <;> rw [h]

/-- What a rule writes: the evaluations of its findings, and texts of templates. -/
def RuleWrite (fs : List Finding) : Write → Prop
  | .evaluated _ e => ∃ f ∈ fs, e = f.evaluation
  | .changed g => ∀ i, ∃ t, g i = { i with precursorTemplate := t }
  | .skipped _ => True

theorem RuleWrite.regular {w : Write} (h : RuleWrite fs w) : w.Regular := by
  cases w with
  | changed g =>
    constructor <;> intro i <;> obtain ⟨t, ht⟩ := h i <;> simp [ht, Incident.live]
  | _ => trivial

theorem addTemplate_eq (template : Option String) (i : Incident) :
    ∃ t, i.addTemplate template = { i with precursorTemplate := t } := by
  unfold Incident.addTemplate
  split
  · exact ⟨_, rfl⟩
  · exact ⟨i.precursorTemplate, rfl⟩

theorem writes_report (hf : f ∈ fs) :
    Writes digest (RuleWrite fs) p.store (report digest tenant minCycles now f p).2.store := by
  rcases report_cases digest tenant minCycles now f p with
    ⟨-, h⟩ | ⟨-, ⟨-, h⟩ | ⟨store, id, notes, hs, h⟩⟩ <;> rw [h]
  · exact .refl
  · exact .refl
  · refine (Writes.evaluated hs ⟨f, hf, rfl⟩).trans (Writes.changed store fun i => ?_)
    split
    · exact addTemplate_eq _ i
    · exact ⟨i.precursorTemplate, rfl⟩

/-- What every finding of a rule preserves is preserved by its loop. -/
theorem invariant_reportAll {I : Progress → Prop}
    (hstep : ∀ f ∈ fs, ∀ p, I p → I (report digest tenant minCycles now f p).2) (hp : I p) :
    I (reportAll digest tenant minCycles now fs p).2 := by
  induction fs generalizing p with
  | nil => exact hp
  | cons f fs ih =>
    rw [reportAll]
    have hf := hstep f List.mem_cons_self p hp
    split
    · exact hf
    · exact ih (fun g hg => hstep g (List.mem_cons_of_mem f hg)) hf

theorem writes_reportAll :
    Writes digest (RuleWrite fs) p.store (reportAll digest tenant minCycles now fs p).2.store :=
  invariant_reportAll (I := fun q => Writes digest (RuleWrite fs) p.store q.store)
    (fun _ hf _ hq => hq.trans (writes_report hf)) .refl

/-- A rule that is not rolled back has gone through all its findings. -/
theorem reportUntil_of_ok (hok : (reportUntil digest tenant minCycles now fs p fault).1 = false) :
    fault = .never := by
  cases fault with
  | never => rfl
  | raises handled counted lost =>
    simp only [reportUntil] at hok
    split at hok
    · simp_all
    · cases hok

theorem runRule_of_ok (hok : (runRule digest tenant minCycles now fs fault p).1 = true) :
    fault = .never ∧ (reportAll digest tenant minCycles now fs p).1 = false ∧
      runRule digest tenant minCycles now fs fault p =
        (true, (reportAll digest tenant minCycles now fs p).2) := by
  simp only [runRule] at hok ⊢
  split at hok
  · cases hok
  · rename_i hraised
    rw [Bool.not_eq_true] at hraised
    obtain rfl := reportUntil_of_ok hraised
    rw [reportUntil] at hraised ⊢
    simp [hraised]

theorem writes_reportUntil :
    Writes digest (RuleWrite fs) p.store
      (reportUntil digest tenant minCycles now fs p fault).2.store := by
  have htake : ∀ n, Writes digest (RuleWrite fs) p.store
      (reportAll digest tenant minCycles now (fs.take n) p).2.store := fun n =>
    Writes.mono writes_reportAll fun w hw => by
      cases w with
      | evaluated now e =>
        obtain ⟨f, hf, he⟩ := hw
        exact ⟨f, List.mem_of_mem_take hf, he⟩
      | _ => exact hw
  cases fault with
  | never => exact writes_reportAll
  | raises handled counted lost =>
    simp only [reportUntil]
    split <;> exact htake handled

/-- A rule writes what it finds, or only draws numbers of the sequence. -/
theorem writes_runRule :
    Writes digest (RuleWrite fs) p.store
      (runRule digest tenant minCycles now fs fault p).2.store := by
  have hw : Writes digest (RuleWrite fs) p.store
      (reportUntil digest tenant minCycles now fs p fault).2.store := writes_reportUntil
  simp only [runRule]
  split
  · obtain ⟨n, hn⟩ := Nat.exists_eq_add_of_le (next_le_of_writes hw)
    rw [hn, Nat.add_assoc]
    exact Writes.skipped p.store _ trivial
  · exact hw

end Writes

/-! ### What a cycle does to the table -/

/-- All findings of a cycle. -/
def Cycle.allFindings (c : Cycle) : List Finding := rules.flatMap c.findings

theorem Cycle.mem_allFindings {c : Cycle} {f : Finding} :
    f ∈ c.allFindings ↔ ∃ r, f ∈ c.findings r := by
  rw [Cycle.allFindings, List.mem_flatMap]
  exact ⟨fun ⟨r, _, hf⟩ => ⟨r, hf⟩, fun ⟨r, hf⟩ => ⟨r, by cases r <;> decide, hf⟩⟩

section Cycle

variable {h : Digests} {tenant : ℕ} {c : Cycle} {s : Store} {tracker : Tracker} {rs : List Rule}
  {p : Bool × Progress}

/-- What the transaction of every rule preserves is preserved by all of them. -/
theorem invariant_runRules {I : Progress → Prop}
    (hstep : ∀ r, c.runs r → ∀ q, I q →
      I (runRule h.digest16 tenant c.minCycles c.now (c.findings r) (c.fault r) q).2)
    (hp : I p.2) : I (runRules h tenant c rs p).2 := by
  induction rs generalizing p with
  | nil => exact hp
  | cons r rs ih =>
    rw [runRules]
    split
    · rename_i hruns
      exact ih (hstep r hruns p.2 hp)
    · exact ih hp

theorem writes_runRules :
    Writes h.digest16 (RuleWrite c.allFindings) p.2.store (runRules h tenant c rs p).2.store := by
  refine invariant_runRules (I := fun q => Writes h.digest16 (RuleWrite c.allFindings) p.2.store
    q.store) (fun r _ q hq => hq.trans (writes_runRule.mono fun w hw => ?_)) .refl
  cases w with
  | evaluated now e =>
    obtain ⟨f, hf, he⟩ := hw
    exact ⟨f, Cycle.mem_allFindings.mpr ⟨r, hf⟩, he⟩
  | _ => exact hw

/-- The transaction for orphans leaves incidents of other rules alone. -/
theorem exists_orphansStep {p : Progress} (hvalid : p.store.Valid) :
    ∃ g, (orphansStep h c p).2.store = p.store.change g ∧ Keeps g ∧
      ∀ i ∈ p.store.rows, i.rule ≠ alertRule → i.rule ≠ failedRule → g i = i := by
  simp only [orphansStep]
  split
  · exact ⟨fun i => i, by simp [Store.change], ⟨fun _ => rfl, fun _ => rfl, fun _ => rfl,
      fun _ h => h⟩, fun _ _ _ _ => rfl⟩
  · exact exists_resolveOrphans h hvalid

/-- The table after the auto-resolve, which takes effect if the offline hosts are known and nothing
raises. -/
theorem store_resolveStep (p : Progress) :
    (resolveStep h c p).2.store =
      if c.offlineKnown ∧ c.resolveFault = none then
        autoResolve h.digest16 c.lookups c.offline c.resolveAt p.store
      else p.store := by
  unfold resolveStep
  cases c.offlineKnown <;> cases c.resolveFault <;> rfl

theorem store_runCorrelation (hsettings : c.settings ≠ none) :
    (runCorrelation h tenant c s tracker).2.store =
      (resolveStep h c (beforeResolve h tenant c s tracker).2).2.store := by
  simp [runCorrelation, hsettings]

theorem touched_runCorrelation (hsettings : c.settings ≠ none) :
    (runCorrelation h tenant c s tracker).2.touched =
      (beforeResolve h tenant c s tracker).2.touched := by
  simp only [runCorrelation, hsettings, if_false, resolveStep]
  cases c.offlineKnown <;> cases c.resolveFault <;> rfl

theorem ok_of_runRules (hok : (runRules h tenant c rs p).1 = true) : p.1 = true := by
  induction rs generalizing p with
  | nil => exact hok
  | cons r rs ih =>
    rw [runRules] at hok
    split at hok
    · exact (Bool.and_eq_true_iff.mp (ih hok)).1
    · exact ih hok

/-- In a complete cycle the settings and the offline hosts are known, every step is ok. -/
theorem of_complete (hcomplete : (runCorrelation h tenant c s tracker).1 = true) :
    c.settings ≠ none ∧ c.offlineKnown = true ∧ c.orphansRaise = false ∧ c.resolveFault = none ∧
      (afterRules h tenant c s tracker).1 = true := by
  unfold runCorrelation at hcomplete
  split at hcomplete
  · cases hcomplete
  rename_i hsettings
  obtain ⟨hbefore, hresolve⟩ := Bool.and_eq_true_iff.mp hcomplete
  obtain ⟨hrules, horphans⟩ := Bool.and_eq_true_iff.mp hbefore
  have hoffline : c.offlineKnown = true := ok_of_runRules hrules
  refine ⟨hsettings, hoffline, ?_, ?_, hrules⟩
  · cases hraise : c.orphansRaise with
    | false => rfl
    | true => simp [orphansStep, hraise] at horphans
  · cases hfault : c.resolveFault with
    | none => rfl
    | some count => simp [resolveStep, hoffline, hfault] at hresolve

theorem keeps_autoResolve (digest : String → String) (l : Lookups) (offline : List PingHost)
    (now : ℚ) : Keeps fun i =>
      if i.live && shouldResolve digest l offline now i then i.resolve now else i :=
  (keeps_resolve now).ite fun i => (i.live && shouldResolve digest l offline now i) = true

/-- What the rules of a cycle write. -/
theorem writes_afterRules :
    Writes h.digest16 (RuleWrite c.allFindings) s (afterRules h tenant c s tracker).2.store :=
  writes_runRules (p := (c.offlineKnown, .start s tracker))

theorem valid_afterRules (hvalid : s.Valid) : (afterRules h tenant c s tracker).2.store.Valid :=
  hvalid.writes (writes_afterRules.mono fun _ => RuleWrite.regular)

theorem valid_beforeResolve (hvalid : s.Valid) :
    (beforeResolve h tenant c s tracker).2.store.Valid := by
  have hrules : (afterRules h tenant c s tracker).2.store.Valid := valid_afterRules hvalid
  obtain ⟨g, hstore, hg, -⟩ := exists_orphansStep (h := h) (c := c) hrules
  simp only [beforeResolve]
  exact hstore ▸ hrules.change hg

theorem valid_runCorrelation (hvalid : s.Valid) :
    (runCorrelation h tenant c s tracker).2.store.Valid := by
  by_cases hsettings : c.settings = none
  · simpa [runCorrelation, hsettings, Progress.start] using hvalid
  · rw [store_runCorrelation hsettings, store_resolveStep]
    split
    · exact (valid_beforeResolve hvalid).change (keeps_autoResolve _ _ _ _)
    · exact valid_beforeResolve hvalid

end Cycle

/-! ### What is opened or refreshed -/

/-- What has been opened or refreshed is in the table: the incident of the rule and the key, open,
with the hosts of the last finding that reached it. -/
structure Traced (digest : String → String) (fs : List Finding) (p : Progress) : Prop where
  valid : p.store.Valid
  mem : ∀ x ∈ p.touched, x.1 ∈ fs
  row : ∀ x ∈ p.touched, ∃ i ∈ p.store.rows, i.id = x.2 ∧
    i.Has x.1.rule (x.1.evaluation.hash digest) ∧
      ∃ y ∈ p.touched, y.2 = x.2 ∧ y.1.rule = x.1.rule ∧ i.hostIds = y.1.evaluation.recorded

section Traced

variable {digest : String → String} {tenant minCycles : ℕ} {now : ℚ} {f : Finding}
  {fs : List Finding} {p : Progress} {fault : RuleFault}

theorem Traced.report (hp : Traced digest fs p) (hf : f ∈ fs) :
    Traced digest fs (report digest tenant minCycles now f p).2 := by
  have hwrites : Writes digest (RuleWrite fs) p.store
      (Incidents.report digest tenant minCycles now f p).2.store := writes_report hf
  have hvalid := hp.valid.writes (hwrites.mono fun _ => RuleWrite.regular)
  rcases report_cases digest tenant minCycles now f p with
    ⟨-, h⟩ | ⟨-, ⟨-, h⟩ | ⟨store, id, notes, hs, h⟩⟩ <;> rw [h] at hvalid ⊢
  · exact ⟨hp.valid, hp.mem, hp.row⟩
  · exact ⟨hp.valid, hp.mem, hp.row⟩
  refine ⟨hvalid, fun x hx => ?_, ?_⟩
  · rcases List.mem_append.mp hx with hx | hx
    · exact hp.mem x hx
    · rw [List.mem_singleton.mp hx]
      exact hf
  obtain ⟨⟨r, hr, hrid, hrhas, hrhosts⟩, hother⟩ := hp.valid.exists_row_of_findOrCreate hs
  obtain ⟨t, ht⟩ := addTemplate_eq f.template r
  -- The incident as the finding leaves it. Every other row is as before.
  have hreached : ∃ i ∈ (store.modify id (Incident.addTemplate f.template)).rows, i.id = id ∧
      i.Has f.rule (f.evaluation.hash digest) ∧ i.hostIds = f.evaluation.recorded :=
    ⟨_, Store.mem_modify.mpr (.inl ⟨r, hr, hrid, rfl⟩), by rw [ht]; exact hrid,
      by rw [ht]; exact hrhas, by rw [ht]; exact hrhosts (by simp [Evaluation.recorded,
        Finding.evaluation])⟩
  have hlast : (f, id) ∈ p.touched ++ [(f, id)] := List.mem_append_right _ (by simp)
  intro x hx
  rcases List.mem_append.mp hx with hx | hx
  · obtain ⟨i, hi, hid, hhas, y, hy, hyid, hyrule, hyhosts⟩ := hp.row x hx
    by_cases hxid : i.id = id
    · obtain ⟨j, hj, hjid, hjhas, hjhosts⟩ := hreached
      have hihas := (hother i hi).2 hxid
      have hrule : x.1.rule = f.rule := hhas.2.1.symm.trans hihas.2.1
      have hkey := Option.some.inj (hhas.2.2.symm.trans hihas.2.2)
      refine ⟨j, hj, hjid.trans (hxid.symm.trans hid), ?_, (f, id), hlast, ?_, hrule.symm, hjhosts⟩
      · rw [hrule, hkey]
        exact hjhas
      · exact hxid.symm.trans hid
    · refine ⟨i, Store.mem_modify.mpr (.inr ⟨(hother i hi).1 hxid, hxid⟩), hid, hhas, y, ?_, hyid,
        hyrule, hyhosts⟩
      exact List.mem_append_left _ hy
  · rw [List.mem_singleton.mp hx]
    obtain ⟨j, hj, hjid, hjhas, hjhosts⟩ := hreached
    exact ⟨j, hj, hjid, hjhas, (f, id), hlast, rfl, rfl, hjhosts⟩

theorem Traced.runRule (hp : Traced digest fs p) {gs : List Finding} (hsub : ∀ f ∈ gs, f ∈ fs) :
    Traced digest fs (runRule digest tenant minCycles now gs fault p).2 := by
  have hvalid : (Incidents.runRule digest tenant minCycles now gs fault p).2.store.Valid :=
    hp.valid.writes (writes_runRule.mono fun _ => RuleWrite.regular)
  cases hok : (Incidents.runRule digest tenant minCycles now gs fault p).1 with
  | true =>
    obtain ⟨-, -, hrun⟩ := runRule_of_ok hok
    rw [hrun]
    exact invariant_reportAll (fun f hf q hq => hq.report (hsub f hf)) hp
  | false =>
    simp only [Incidents.runRule] at hok hvalid ⊢
    split at hok
    · rename_i hraised
      rw [if_pos hraised] at hvalid ⊢
      exact ⟨hvalid, hp.mem, hp.row⟩
    · cases hok

end Traced

end Nodeglow.Incidents
