import Nodeglow.Backend.AlertRules.Evaluation
import Nodeglow.Backend.Incidents.HostRules

/-!
# Incidents of alert rules

The incident of an alert rule is written by the passes over the alert rules, when the rule fires,
and by the correlation cycles, which resolve it when it was not written for ten minutes. Nothing
else in a cycle touches it: the rules of the correlation engine find nothing under the names of
alert rules, and incidents of configs have other names.

## Main results

* `not_alertRule_of_finding` — what the correlation rules find is not about alert rules.
* `exists_leftOrResolved`, `exists_resolved` — what a cycle does to the incident of an alert rule.
* `Resting.evaluateRules`, `fired_evaluateRules` — what a pass does to a rule and its incident.

Source: `backend/services/correlation.py`, lines 270–948; `backend/services/rules.py`, lines
114–264.
-/

namespace Nodeglow.AlertRules

open Incidents

/-! ### Correlation cycles -/

/-- The rules of incidents that alert rules open. -/
def isAlertRule (rule : String) : Bool := startsWith "alert_rule_" rule

theorem isAlertRule_incidentRule (r : AlertRule) : isAlertRule r.incidentRule = true :=
  startsWith_append _ _

theorem isAlertRule_precursor (event : String) :
    isAlertRule ("learned_precursor" ++ event) = false := by
  simp [isAlertRule, startsWith, List.isPrefixOf]

/-- **What the correlation rules find** is not under the name of an alert rule. -/
theorem not_alertRule_of_finding {o : Observed} {offline : List PingHost} {f : Finding} {r : Rule}
    (hf : f ∈ r.findings o offline) : isAlertRule f.rule = false := by
  have habout (h : AboutHosts o offline f) : isAlertRule f.rule = false := by
    cases h with
    | hostDown hrule | upstream hrule | multi hrule | integration hrule | port hrule =>
      rw [hrule]; decide +kernel
  have hother (hr : r ∉ [Rule.hostDownSyslog, .multiHostDown, .integrationHost, .portError]) :
      isAlertRule f.rule = false := by
    have hnames : ∀ rule ∈ ["syslog_spike", "log_anomaly", "fleet_wide_issue", "severity_trend",
        "content_anomaly"], isAlertRule rule = false := by
      decide +kernel
    rcases rule_of_finding hf hr with hrule | ⟨event, hrule⟩
    · exact hnames _ hrule
    · rw [hrule]
      exact isAlertRule_precursor event
  cases r with
  | hostDownSyslog => exact habout (aboutHosts_hostDownSyslog hf)
  | multiHostDown => exact habout (aboutHosts_multiHostDown hf)
  | integrationHost => exact habout (aboutHosts_integrationHost hf)
  | portError => exact habout (aboutHosts_portError hf)
  | _ => exact hother (by decide)

section Cycle

variable {h : Digests} {tenant : ℕ} {c : Cycle} {s : Store} {tracker : Tracker} {i j : Incident}

theorem shouldResolve_of_alertRule {digest : String → String} {l : Lookups}
    {offline : List PingHost} {now : ℚ} (halert : isAlertRule i.rule = true) :
    shouldResolve digest l offline now i = decide (i.updatedAt < now - 10) := by
  have htimeout : resolvesByTimeout i.rule = true := by
    rw [isAlertRule] at halert
    rw [resolvesByTimeout, halert, Bool.or_true]
  rw [shouldResolve, if_pos htimeout]

theorem ne_configRules_of_alertRule (halert : isAlertRule i.rule = true) :
    i.rule ≠ alertRule ∧ i.rule ≠ failedRule := by
  have hnames : isAlertRule alertRule = false ∧ isAlertRule failedRule = false := by decide +kernel
  constructor <;> intro hrule <;> simp [hrule, hnames] at halert

/-- Until the auto-resolve, a cycle leaves the incidents of alert rules alone. -/
theorem exists_mem_beforeResolve (h : Digests) (tenant : ℕ) (c : Cycle) (tracker : Tracker)
    (hvalid : s.Valid) (hi : i ∈ s.rows) (halert : isAlertRule i.rule = true) :
    ∃ t, { i with precursorTemplate := t } ∈
      (beforeResolve h tenant c s tracker).2.store.rows := by
  have hrules : ∃ t, { i with precursorTemplate := t } ∈
      (afterRules h tenant c s tracker).2.store.rows := by
    have hw : Writes h.digest16 (RuleWrite c.allFindings) s
      (afterRules h tenant c s tracker).2.store := writes_afterRules
    refine (hw.invariant
      (I := fun u => u.Valid ∧ ∃ t, { i with precursorTemplate := t } ∈ u.rows) ?_
      ⟨hvalid, i.precursorTemplate, hi⟩).2
    rintro u w u' hP ⟨hu, t, hmem⟩ happly
    refine ⟨hu.apply hP.regular happly, ?_⟩
    rcases w.cases happly with ⟨now, e, id, notes, rfl, hfind⟩ | ⟨f, rfl, rfl⟩ | ⟨n, rfl, rfl⟩
    · obtain ⟨f, hf, rfl⟩ := hP
      obtain ⟨r, hf⟩ := Cycle.mem_allFindings.mp hf
      have hother := (hu.exists_row_of_findOrCreate hfind).2 _ hmem
      refine ⟨t, hother.1 fun hid => ?_⟩
      have hrule : i.rule = f.rule := (hother.2 hid).2.1
      rw [hrule, not_alertRule_of_finding hf] at halert
      cases halert
    · obtain ⟨t', ht'⟩ := hP { i with precursorTemplate := t }
      exact ⟨t', List.mem_map.mpr ⟨_, hmem, ht'⟩⟩
    · exact ⟨t, hmem⟩
  obtain ⟨t, hmem⟩ := hrules
  have hvalid' : (afterRules h tenant c s tracker).2.store.Valid := valid_afterRules hvalid
  obtain ⟨g, hstore, -, hother⟩ := exists_orphansStep (h := h) (c := c) hvalid'
  obtain ⟨hne, hne'⟩ := ne_configRules_of_alertRule halert
  refine ⟨t, ?_⟩
  simp only [beforeResolve]
  rw [hstore]
  exact List.mem_map.mpr ⟨_, hmem, hother _ hmem hne hne'⟩

/-- Until the auto-resolve, a cycle has no new incidents of alert rules. -/
theorem exists_of_mem_beforeResolve (hvalid : s.Valid)
    (hj : j ∈ (beforeResolve h tenant c s tracker).2.store.rows)
    (halert : isAlertRule j.rule = true) :
    ∃ i ∈ s.rows, ∃ t, j = { i with precursorTemplate := t } := by
  have hw : Writes h.digest16 (RuleWrite c.allFindings) s
    (afterRules h tenant c s tracker).2.store := writes_afterRules
  have hrules := forall_row_of_writes
    (R := fun j => isAlertRule j.rule = true → ∃ i ∈ s.rows, ∃ t, j = { i with
      precursorTemplate := t }) hvalid hw (fun w hP => hP.regular)
    (by
      rintro now e id ⟨f, hf, rfl⟩ hrule
      obtain ⟨r, hf⟩ := Cycle.mem_allFindings.mp hf
      have hname : isAlertRule f.rule = true := hrule
      rw [not_alertRule_of_finding hf] at hname
      cases hname)
    (by
      rintro now e k ⟨f, hf, rfl⟩ hhas - hrule
      obtain ⟨r, hf⟩ := Cycle.mem_allFindings.mp hf
      have hname : k.rule = f.rule := hhas.2.1
      have hfound : isAlertRule k.rule = true := hrule
      rw [hname, not_alertRule_of_finding hf] at hfound
      cases hfound)
    (by
      intro f k hP hR hrule
      obtain ⟨t, ht⟩ := hP k
      rw [ht] at hrule ⊢
      obtain ⟨i, hi, t', rfl⟩ := hR hrule
      exact ⟨i, hi, t, rfl⟩)
    (fun i hi _ => ⟨i, hi, i.precursorTemplate, rfl⟩)
  have hvalid' : (afterRules h tenant c s tracker).2.store.Valid := valid_afterRules hvalid
  obtain ⟨g, hstore, hg, hother⟩ := exists_orphansStep (h := h) (c := c) hvalid'
  simp only [beforeResolve] at hj
  rw [hstore] at hj
  obtain ⟨k, hk, rfl⟩ := List.mem_map.mp hj
  rw [hg.rule] at halert
  obtain ⟨hne, hne'⟩ := ne_configRules_of_alertRule halert
  rw [hother k hk hne hne']
  exact hrules k hk halert

/-- What a cycle makes of an incident of an alert rule: it leaves it, or it resolves it because it
was not written for ten minutes. -/
def LeftOrResolved (c : Cycle) (i j : Incident) : Prop :=
  j.id = i.id ∧ j.rule = i.rule ∧ j.hostIdsHash = i.hostIdsHash ∧
    ((j.status = i.status ∧ j.updatedAt = i.updatedAt) ∨
      (i.updatedAt < c.resolveAt - 10 ∧ j.status = .resolved))

/-- The auto-resolve, for an incident of an alert rule. -/
theorem leftOrResolved_autoResolve (halert : isAlertRule i.rule = true) (t : Option String) :
    LeftOrResolved c i
      (let k := { i with precursorTemplate := t }
      if k.live && shouldResolve h.digest16 c.lookups c.offline c.resolveAt k then
        k.resolve c.resolveAt else k) := by
  dsimp only
  split
  · rename_i hcond
    obtain ⟨-, hresolve⟩ := Bool.and_eq_true_iff.mp hcond
    rw [shouldResolve_of_alertRule (i := { i with precursorTemplate := t }) halert,
      decide_eq_true_iff] at hresolve
    exact ⟨rfl, rfl, rfl, .inr ⟨hresolve, rfl⟩⟩
  · exact ⟨rfl, rfl, rfl, .inl ⟨rfl, rfl⟩⟩

/-- The incident of an alert rule stays in the table. -/
theorem exists_leftOrResolved (h : Digests) (tenant : ℕ) (c : Cycle) (tracker : Tracker)
    (hvalid : s.Valid) (hi : i ∈ s.rows) (halert : isAlertRule i.rule = true) :
    ∃ j ∈ (runCorrelation h tenant c s tracker).2.store.rows, LeftOrResolved c i j := by
  by_cases hsettings : c.settings = none
  · refine ⟨i, ?_, rfl, rfl, rfl, .inl ⟨rfl, rfl⟩⟩
    simpa [runCorrelation, hsettings, Progress.start] using hi
  obtain ⟨t, hmem⟩ := exists_mem_beforeResolve h tenant c tracker hvalid hi halert
  rw [store_runCorrelation hsettings, store_resolveStep]
  split
  · exact ⟨_, List.mem_map_of_mem hmem, leftOrResolved_autoResolve halert t⟩
  · exact ⟨_, hmem, rfl, rfl, rfl, .inl ⟨rfl, rfl⟩⟩

/-- The incidents of alert rules after a cycle are those before it. -/
theorem exists_of_leftOrResolved (hvalid : s.Valid)
    (hj : j ∈ (runCorrelation h tenant c s tracker).2.store.rows)
    (halert : isAlertRule j.rule = true) : ∃ i ∈ s.rows, LeftOrResolved c i j := by
  by_cases hsettings : c.settings = none
  · refine ⟨j, ?_, rfl, rfl, rfl, .inl ⟨rfl, rfl⟩⟩
    simpa [runCorrelation, hsettings, Progress.start] using hj
  rw [store_runCorrelation hsettings, store_resolveStep] at hj
  split at hj
  · obtain ⟨k, hk, rfl⟩ := List.mem_map.mp hj
    rw [(keeps_autoResolve _ _ _ _).rule] at halert
    obtain ⟨i, hi, t, rfl⟩ := exists_of_mem_beforeResolve hvalid hk halert
    exact ⟨i, hi, leftOrResolved_autoResolve halert t⟩
  · obtain ⟨i, hi, t, rfl⟩ := exists_of_mem_beforeResolve hvalid hj halert
    exact ⟨i, hi, rfl, rfl, rfl, .inl ⟨rfl, rfl⟩⟩

/-- A cycle that comes to its end resolves an open incident that was not written for ten minutes. -/
theorem exists_resolved (h : Digests) (tenant : ℕ) (c : Cycle) (tracker : Tracker)
    (hvalid : s.Valid) (hi : i ∈ s.rows) (halert : isAlertRule i.rule = true)
    (hlive : i.live = true) (hold : i.updatedAt < c.resolveAt - 10) (hsettings : c.settings ≠ none)
    (hoffline : c.offlineKnown = true) (hfault : c.resolveFault = none) :
    ∃ j ∈ (runCorrelation h tenant c s tracker).2.store.rows,
      j.id = i.id ∧ j.status = .resolved := by
  obtain ⟨t, hmem⟩ := exists_mem_beforeResolve h tenant c tracker hvalid hi halert
  rw [store_runCorrelation hsettings, store_resolveStep, if_pos ⟨hoffline, hfault⟩]
  have hresolve : shouldResolve h.digest16 c.lookups c.offline c.resolveAt
      { i with precursorTemplate := t } = true := by
    rw [shouldResolve_of_alertRule (i := { i with precursorTemplate := t }) halert]
    exact decide_eq_true hold
  have hlive' : Incident.live { i with precursorTemplate := t } = true := hlive
  exact ⟨_, List.mem_map_of_mem hmem, by simp [hlive', hresolve, Incident.resolve],
    by simp [hlive', hresolve, Incident.resolve]⟩

end Cycle

/-! ### Passes -/

/-- The open incident of an alert rule. -/
def AlertRule.Owns (digest : String → String) (r : AlertRule) (i : Incident) : Prop :=
  i.Has r.incidentRule (hostIdsHash digest [0])

/-- The open incidents of an alert rule were written at a time or later. -/
def WrittenSince (digest : String → String) (r : AlertRule) (since : ℚ) (s : Store) : Prop :=
  ∀ i ∈ s.rows, r.Owns digest i → since ≤ i.updatedAt

section Pass

variable {b : Builtins} {digest : String → String} {p : Pass} {q r : AlertRule} {s s' : State}
  {since : ℚ} {n : Option ℕ}

/-- Whatever is opened or refreshed is written at the time of the evaluation. -/
theorem writtenSince_findOrCreate {now : ℚ} {e : Evaluation} {t t' : Store} {id : ℕ}
    {notes : List Note} (hsince : WrittenSince digest r since t) (hnow : since ≤ now)
    (hfind : findOrCreate digest now e t = some (t', id, notes)) :
    WrittenSince digest r since t' := by
  intro j hj howns
  rcases findOrCreate_cases hfind with ⟨i, -, -, rfl, rfl, -⟩ | ⟨-, rfl, rfl, -⟩
  · rcases Store.mem_modify.mp hj with ⟨k, hk, -, rfl⟩ | ⟨hj, -⟩
    · exact hnow
    · exact hsince j hj howns
  · rcases List.mem_append.mp hj with hj | hj
    · exact hsince j hj howns
    · rw [List.mem_singleton.mp hj]
      exact hnow

/-- An alert rule that fires writes its incident. -/
theorem writtenSince_fire {now : ℚ} {t t' : Store} {id : ℕ} {notes : List Note} (hvalid : t.Valid)
    (hfind : findOrCreate digest now r.evaluation t = some (t', id, notes)) :
    WrittenSince digest r now t' := by
  intro j hj howns
  rcases findOrCreate_cases hfind with ⟨i, hi, hhas, rfl, rfl, -⟩ | ⟨hnone, rfl, rfl, -⟩
  · rcases Store.mem_modify.mp hj with ⟨k, -, -, rfl⟩ | ⟨hj, hid⟩
    · exact le_rfl
    · exact absurd (congrArg Incident.id (hvalid.keyed j hj i hi _ _ howns hhas)) hid
  · rcases List.mem_append.mp hj with hj | hj
    · exact absurd howns (hnone j hj)
    · rw [List.mem_singleton.mp hj]
      exact le_rfl

/-- A rule with its counter, and its incident. -/
structure Resting (digest : String → String) (r : AlertRule) (n : Option ℕ) (since : ℚ)
    (s : State) : Prop where
  row : r ∈ s.rules
  counts : s.counts r.id = n
  valid : s.store.Valid
  written : WrittenSince digest r since s.store

theorem mem_trigger_of_ne {now : ℚ} (hr : r ∈ s.rules) (hid : q.id ≠ r.id) :
    r ∈ (s.trigger q.id now).rules :=
  List.mem_map.mpr ⟨r, hr, if_neg hid.symm⟩

/-- Another rule leaves the rule alone. -/
theorem Resting.evaluateRule_of_ne (h : Resting digest r n since s) (hid : q.id ≠ r.id)
    (hsince : since ≤ p.writtenAt) : Resting digest r n since (evaluateRule b digest p q s).2 := by
  have hcounts : (evaluateRule b digest p q s).2.counts r.id = s.counts r.id :=
    counts_evaluateRule_of_ne hid.symm
  refine ⟨?_, hcounts.trans h.counts, ?_, ?_⟩ <;>
  rcases evaluateRule_cases b digest p q s with ⟨-, hout⟩ | ⟨-, hout⟩ | ⟨-, -, hout⟩ |
    ⟨-, -, ⟨-, hout⟩ | ⟨s', hfire, hout⟩⟩ <;> rw [hout]
  · exact h.row
  · exact h.row
  · exact h.row
  · exact h.row
  · rw [State.setCount_rules, (fire_cases hfire).2.1]
    exact mem_trigger_of_ne h.row hid
  · exact h.valid
  · exact h.valid
  · exact h.valid
  · exact h.valid
  · obtain ⟨-, -, -, ⟨-, id, notes, hfind⟩ | ⟨-, hstore⟩⟩ := fire_cases hfire
    · exact h.valid.findOrCreate hfind
    · rw [State.setCount_store, hstore]
      exact h.valid
  · exact h.written
  · exact h.written
  · exact h.written
  · exact h.written
  · obtain ⟨-, -, -, ⟨-, id, notes, hfind⟩ | ⟨-, hstore⟩⟩ := fire_cases hfire
    · exact writtenSince_findOrCreate h.written hsince hfind
    · rw [State.setCount_store, hstore]
      exact h.written

/-- What a pass makes of a rule is what the rule's own turn makes of it. -/
theorem Resting.evaluateRules {s₀ : State} (h : Resting digest r n since s₀)
    (hnodup : (s₀.rules.map AlertRule.id).Nodup) (hr : r ∈ p.reached s₀.rules)
    (hsince : since ≤ p.writtenAt) {r' : AlertRule} {n' : Option ℕ} {since' : ℚ}
    (hid : r'.id = r.id) (hsince' : since' ≤ p.writtenAt)
    (hturn : ∀ s, Resting digest r n since s →
      Resting digest r' n' since' (evaluateRule b digest p r s).2) :
    Resting digest r' n' since' (evaluateRules b digest p s₀).2 := by
  obtain ⟨pre, post, hsplit⟩ := List.append_of_mem hr
  have hids := nodup_reached (p := p) hnodup
  rw [hsplit, List.map_append, List.map_cons, List.nodup_append, List.nodup_cons] at hids
  obtain ⟨-, ⟨hpost, -⟩, hpre⟩ := hids
  have hbefore : Resting digest r n since (evaluateAll b digest p pre s₀).2 :=
    invariant_evaluateAll (I := Resting digest r n since) (fun q hq _ hs =>
      hs.evaluateRule_of_ne (hpre _ (List.mem_map_of_mem hq) _ List.mem_cons_self) hsince) h
  rw [AlertRules.evaluateRules, hsplit, evaluateAll_append, evaluateAll]
  refine invariant_evaluateAll (I := Resting digest r' n' since') (fun q hq _ hs =>
    hs.evaluateRule_of_ne (fun hq' => hpost ?_) hsince') (hturn _ hbefore)
  exact List.mem_map.mpr ⟨q, hq, hq'.trans hid⟩

variable (hnodup : (s.rules.map AlertRule.id).Nodup) (h : Resting digest r n since s)
  (hr : r ∈ p.reached s.rules) (hsince : since ≤ p.writtenAt)
include hnodup h hr hsince

/-- A pass leaves out a rule whose cooldown is on. -/
theorem cooled_evaluateRules (hcooling : r.cooling p.now = true) :
    Resting digest r n since (evaluateRules b digest p s).2 := by
  refine h.evaluateRules hnodup hr hsince rfl hsince fun t ht => ?_
  have hjudge : p.judge b r = .skipped .cooling := if_pos hcooling
  rcases evaluateRule_cases b digest p r t with ⟨-, hout⟩ | ⟨hother, -⟩ | ⟨hother, -⟩ |
    ⟨hother, -⟩
  · rwa [hout]
  all_goals
    rw [hjudge] at hother
    cases hother

/-- A rule whose condition is true counts on as long as it does not fire. -/
theorem counted_evaluateRules (hheld : p.judge b r = .held)
    (hdue : n.getD 0 + 1 < r.minConsecutive) :
    Resting digest r (some (n.getD 0 + 1)) since (evaluateRules b digest p s).2 := by
  refine h.evaluateRules hnodup hr hsince rfl hsince fun t ht => ?_
  have hcount : t.count r.id = n.getD 0 := by rw [State.count, ht.counts]
  rcases evaluateRule_cases b digest p r t with ⟨⟨why, hother⟩, -⟩ | ⟨hother, -⟩ | ⟨-, -, hout⟩ |
    ⟨-, hfires, -⟩
  · rw [hheld] at hother
    cases hother
  · rw [hheld] at hother
    cases hother
  · rw [hout, hcount]
    exact ⟨ht.row, Function.update_self .., ht.valid, ht.written⟩
  · omega

/-- A rule about syslog messages that fires counts from zero, its cooldown begins, and its incident
is written. -/
theorem fired_evaluateRules (hheld : p.judge b r = .held)
    (hdue : r.minConsecutive ≤ n.getD 0 + 1) (hraises : p.fireRaises r = false)
    (hsyslog : r.sourceType = "syslog") :
    Resting digest { r with lastTriggeredAt := some p.now } (some 0) p.writtenAt
      (evaluateRules b digest p s).2 := by
  refine h.evaluateRules hnodup hr hsince rfl le_rfl fun t ht => ?_
  have hcount : t.count r.id = n.getD 0 := by rw [State.count, ht.counts]
  obtain ⟨⟨store, id, notes⟩, hfind⟩ := ht.valid.exists_findOrCreate digest p.writtenAt r.evaluation
  rcases evaluateRule_cases b digest p r t with ⟨⟨why, hother⟩, -⟩ | ⟨hother, -⟩ | ⟨-, hlt, -⟩ |
    ⟨-, -, ⟨hfire, -⟩ | ⟨t', hfire, hout⟩⟩
  · rw [hheld] at hother
    cases hother
  · rw [hheld] at hother
    cases hother
  · omega
  · simp [fire, hraises, hsyslog, hfind] at hfire
  · obtain ⟨hcounts, hrules, -, ⟨-, id', notes', hfind'⟩ | ⟨hother, -⟩⟩ := fire_cases hfire
    · rw [hout]
      refine ⟨?_, Function.update_self .., ?_, ?_⟩
      · rw [State.setCount_rules, hrules]
        exact List.mem_map.mpr ⟨r, ht.row, if_pos rfl⟩
      · exact ht.valid.findOrCreate hfind'
      · exact writtenSince_fire ht.valid hfind'
    · exact absurd hsyslog hother

end Pass

end Nodeglow.AlertRules
