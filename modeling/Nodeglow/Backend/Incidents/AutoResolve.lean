import Nodeglow.Backend.Incidents.HostRules

/-!
# The auto-resolve

A cycle of the correlation engine ends by resolving incidents. What opens an incident and what
resolves it is written in two places, rule by rule. Two rules have no place in the second: an
upstream failure and a full disk are resolved in every cycle. Syslog errors and port errors are
looked up again, a moment after the rules have done so, and may be gone by then. The other rules
about hosts are not resolved while what they found is the case.

An incident about hosts that are all back is resolved in the next complete cycle, unless it is about
several hosts at once and at least three other hosts are offline.

## Main results

* `shouldResolve_of_stands` — which incidents that stand are resolved.
* `neverClosesLive_iff`, `resolved_iff_of_recovered`.

Source: `backend/services/correlation.py`, lines 898–1040 and 1079–1161.
-/

namespace Nodeglow.Incidents

section AutoResolve

variable {h : Digests} {tenant : ℕ} {c : Cycle} {usedPct : ℚ} {s : Store} {tracker : Tracker}
  {i : Incident}

/-! ### Incidents that stand -/

/-- The condition of the incident's rule holds: the cycle finds it, or the disk is as full. -/
def Stands (h : Digests) (c : Cycle) (usedPct : ℚ) (i : Incident) : Prop :=
  (∃ f ∈ c.allFindings, i.rule = f.rule ∧ i.hostIdsHash = some (f.evaluation.hash h.digest16)) ∨
    i.rule = "disk_space" ∧ i.hostIdsHash = some (h.digest16 "self-disk") ∧
      diskWarningPct ≤ usedPct

theorem hash_ne_empty (h : Digests) (e : Evaluation) : e.hash h.digest16 ≠ "" := by
  unfold Evaluation.hash
  split
  · split
    · exact h.ne_empty16 _
    · assumption
  · exact h.ne_empty16 _

/-- The auto-resolve asks of an incident without a timeout whether its hosts are back. -/
theorem shouldResolve_eq {digest : String → String} {l : Lookups} {offline : List PingHost}
    {now : ℚ} {key : String} (htimeout : resolvesByTimeout i.rule = false)
    (hskip : i.rule ∉ ["self_check", "agent_service", alertRule, failedRule])
    (hkey : i.hostIdsHash = some key) (hne : key ≠ "") :
    shouldResolve digest l offline now i = hostsAreBack digest l offline i.rule key := by
  unfold shouldResolve
  rw [if_neg (by rw [htimeout]; exact Bool.false_ne_true), if_neg hskip, hkey,
    Option.filter_some, if_pos (by simpa using hne)]

theorem not_skipped {rule : String} (hrule : rule ∈ hostRules) :
    rule ∉ ["self_check", "agent_service", alertRule, failedRule] := by
  revert rule
  decide

/-- The auto-resolve finds again what it looks up itself: an offline host of the incident still has
syslog errors, or its host a port error. -/
def FoundAgain (digest : String → String) (c : Cycle) (i : Incident) : Prop :=
  (i.rule = "host_down_syslog" → ∃ x ∈ c.offline,
    i.hostIdsHash = some (hostIdsHash digest [x.id]) ∧ 0 < c.lookups.syslogErrors x.id) ∧
  (i.rule = "port_error" → ∃ id ∈ c.lookups.portErrors,
    i.hostIdsHash = some (hostIdsHash digest [id]))

instance (digest : String → String) (c : Cycle) (i : Incident) :
    Decidable (FoundAgain digest c i) :=
  inferInstanceAs (Decidable (_ ∧ _))

/-- A finding about hosts keeps its incident open, unless it is an upstream failure, or is not found
again. -/
theorem hostsAreBack_of_aboutHosts {digest : String → String} {f : Finding}
    (hf : AboutHosts c.observed c.offline f) (hrule : i.rule = f.rule)
    (hkey : i.hostIdsHash = some (f.evaluation.hash digest)) :
    hostsAreBack digest c.lookups c.offline i.rule (f.evaluation.hash digest) = true ↔
      i.rule = "upstream_failure" ∨ ¬ FoundAgain digest c i := by
  unfold FoundAgain
  rw [hkey, hrule]
  cases hf with
  | hostDown hr x hx hids herrors =>
    simp [hostsAreBack, hr, @eq_comm _ (f.evaluation.hash digest)]
  | upstream hr hids => simp [hostsAreBack, hr]
  | multi hr hoffline => simp [hostsAreBack, hr, hoffline]
  | integration hr x hx hids =>
    have hhash : f.evaluation.hash digest = hostIdsHash digest f.hostIds := rfl
    have : (c.offline.any fun y => hostIdsHash digest [y.id] = hostIdsHash digest [x.id]) = true :=
      List.any_eq_true.mpr ⟨x, hx, by simp⟩
    rw [hhash, hids]
    simp [hostsAreBack, hr, this]
  | port hr x hx hfails hids => simp [hostsAreBack, hr, @eq_comm _ (f.evaluation.hash digest)]

/-- Of the rules with a timeout nothing is looked up again. -/
theorem foundAgain_of_resolvesByTimeout {digest : String → String}
    (htimeout : resolvesByTimeout i.rule = true) : FoundAgain digest c i := by
  constructor <;> intro hrule <;> rw [hrule] at htimeout <;> exact absurd htimeout (by decide +kernel)

/-- **Which incidents that stand are resolved**: upstream failures, the incident about the disk,
those of rules with a timeout that have not been written for ten minutes, and those whose errors are
not found again. -/
theorem shouldResolve_of_stands (hstands : Stands h c usedPct i) :
    shouldResolve h.digest16 c.lookups c.offline c.resolveAt i = true ↔
      i.rule = "upstream_failure" ∨ i.rule = "disk_space" ∨
        resolvesByTimeout i.rule = true ∧ i.updatedAt < c.resolveAt - 10 ∨
          ¬ FoundAgain h.digest16 c i := by
  rcases hstands with ⟨f, hf, hrule, hkey⟩ | ⟨hrule, hkey, -⟩
  · obtain ⟨r, hf⟩ := Cycle.mem_allFindings.mp hf
    rcases finding_cases hf with htimeout | habout
    · rw [← hrule] at htimeout
      have hne : ∀ rule, resolvesByTimeout rule = false → i.rule ≠ rule := by
        rintro rule hrule rfl
        exact absurd htimeout (by rw [hrule]; exact Bool.false_ne_true)
      have hfound : FoundAgain h.digest16 c i := foundAgain_of_resolvesByTimeout htimeout
      simp [shouldResolve, htimeout, hne "upstream_failure" (by decide +kernel),
        hne "disk_space" (by decide +kernel), hfound]
    · have hhost : i.rule ∈ hostRules := by
        rw [hrule]
        exact rule_mem_hostRules habout
      have hdisk : i.rule ≠ "disk_space" := by
        rintro heq
        rw [heq] at hhost
        exact absurd hhost (by decide)
      rw [shouldResolve_eq (not_resolvesByTimeout hhost) (not_skipped hhost) hkey
        (hash_ne_empty h _), not_resolvesByTimeout hhost,
        hostsAreBack_of_aboutHosts habout hrule hkey]
      simp [hdisk]
  · rw [shouldResolve_eq (by rw [hrule]; decide +kernel) (by rw [hrule]; decide) hkey
      (h.ne_empty16 _), hrule]
    simp [hostsAreBack]

/-! ### No live incident is closed -/

/-- A cycle resolves no incident that it has opened or refreshed, or that stands. Without its
settings a cycle does nothing. -/
def NeverClosesLive (h : Digests) (tenant : ℕ) (c : Cycle) (usedPct : ℚ) (s : Store)
    (tracker : Tracker) : Prop :=
  c.settings ≠ none →
    ∀ i ∈ (beforeResolve h tenant c s tracker).2.store.rows, i.live = true →
      ((∃ f, (f, i.id) ∈ (beforeResolve h tenant c s tracker).2.touched) ∨ Stands h c usedPct i) →
        ∃ j ∈ (runCorrelation h tenant c s tracker).2.store.rows, j.id = i.id ∧ j.live = true

/-- What a cycle opens or refreshes stands. -/
theorem stands_of_touched (hvalid : s.Valid) {f : Finding}
    (hi : i ∈ (beforeResolve h tenant c s tracker).2.store.rows)
    (hf : (f, i.id) ∈ (beforeResolve h tenant c s tracker).2.touched) : Stands h c usedPct i := by
  have htraced : Traced h.digest16 c.allFindings (beforeResolve h tenant c s tracker).2 :=
    traced_beforeResolve hvalid
  obtain ⟨j, hj, hid, hhas, -⟩ := htraced.row _ hf
  obtain rfl := htraced.valid.eq_of_id hj hi hid
  exact .inl ⟨f, htraced.mem _ hf, hhas.2.1, hhas.2.2⟩

/-- An incident is open after a cycle that resolves it or not. -/
theorem exists_live_iff (hvalid : s.Valid) (hsettings : c.settings ≠ none)
    (hi : i ∈ (beforeResolve h tenant c s tracker).2.store.rows) (hlive : i.live = true) :
    (∃ j ∈ (runCorrelation h tenant c s tracker).2.store.rows, j.id = i.id ∧ j.live = true) ↔
      ¬ ((c.offlineKnown = true ∧ c.resolveFault = none) ∧
        shouldResolve h.digest16 c.lookups c.offline c.resolveAt i = true) := by
  have hbefore : (beforeResolve h tenant c s tracker).2.store.Valid := valid_beforeResolve hvalid
  rw [store_runCorrelation hsettings, store_resolveStep]
  by_cases heffect : c.offlineKnown = true ∧ c.resolveFault = none
  · rw [if_pos heffect]
    simp only [heffect, and_self, true_and, Bool.not_eq_true]
    constructor
    · rintro ⟨j, hj, hid, hjlive⟩
      obtain ⟨k, hk, rfl⟩ := List.mem_map.mp hj
      rw [(keeps_autoResolve _ _ _ _).id] at hid
      obtain rfl := hbefore.eq_of_id hk hi hid
      split at hjlive
      · simp [Incident.live, Incident.resolve] at hjlive
      · simp_all
    · intro hkeep
      exact ⟨i, List.mem_map.mpr ⟨i, hi, by simp [hkeep]⟩, rfl, hlive⟩
  · rw [if_neg heffect]
    simp only [heffect, false_and, not_false_eq_true, iff_true]
    exact ⟨i, hi, rfl, hlive⟩

/-- **When a cycle closes no live incident**, whatever a tenant's table and the streaks: its
auto-resolve takes no effect, or no incident that stands is an upstream failure or about the disk,
those of rules with a timeout have been written within ten minutes, and what the auto-resolve looks
up itself is found again. -/
theorem neverClosesLive_iff {next : ℕ} {events : List TenantEvent}
    (hrun : TenantRun h tenant (.empty next) events s) (c : Cycle) (usedPct : ℚ)
    (tracker : Tracker) :
    NeverClosesLive h tenant c usedPct s tracker ↔
      c.settings = none ∨ c.offlineKnown = false ∨ c.resolveFault ≠ none ∨
        ∀ i ∈ (beforeResolve h tenant c s tracker).2.store.rows, i.live = true →
          Stands h c usedPct i → i.rule ≠ "upstream_failure" ∧ i.rule ≠ "disk_space" ∧
            (resolvesByTimeout i.rule = true → c.resolveAt - 10 ≤ i.updatedAt) ∧
              FoundAgain h.digest16 c i := by
  have hvalid := valid_of_run hrun
  have hstands : ∀ {i}, Stands h c usedPct i →
      (¬ shouldResolve h.digest16 c.lookups c.offline c.resolveAt i = true ↔
        i.rule ≠ "upstream_failure" ∧ i.rule ≠ "disk_space" ∧
          (resolvesByTimeout i.rule = true → c.resolveAt - 10 ≤ i.updatedAt) ∧
            FoundAgain h.digest16 c i) := by
    intro i hi
    rw [shouldResolve_of_stands hi, not_or, not_or, not_or, not_and, not_lt, not_not]
  constructor
  · intro hnever
    by_cases hsettings : c.settings = none
    · exact .inl hsettings
    by_cases heffect : c.offlineKnown = true ∧ c.resolveFault = none
    · refine .inr (.inr (.inr fun i hi hlive hi' => (hstands hi').mp fun hresolve => ?_))
      exact (exists_live_iff hvalid hsettings hi hlive).mp (hnever hsettings i hi hlive (.inr hi'))
        ⟨heffect, hresolve⟩
    · rw [Decidable.not_and_iff_or_not, Bool.not_eq_true] at heffect
      exact .inr (heffect.imp_right .inl)
  · intro hcond hsettings i hi hlive htouched
    have hi' : Stands h c usedPct i := htouched.elim (fun ⟨f, hf⟩ => stands_of_touched hvalid hi hf)
      fun h => h
    refine (exists_live_iff hvalid hsettings hi hlive).mpr fun ⟨heffect, hresolve⟩ => ?_
    rcases hcond with hnone | hunknown | hfault | hall
    · exact hsettings hnone
    · rw [heffect.1] at hunknown
      cases hunknown
    · exact hfault heffect.2
    · exact (hstands hi').mpr (hall i hi hlive hi') hresolve

/-- Host 1 is down and has sent errors, and the incident about it stays open. -/
def errorCycle : Cycle :=
  let c := Cycle.ofHosts [.down 1 "10.0.0.1"] nodup_oneHost pos_oneHost [] 1 100
  { c with
    observed := { c.observed with syslogErrors := fun _ => 4 }
    lookups := { c.lookups with syslogErrors := fun _ => 4 } }

theorem neverClosesLive_errorCycle :
    NeverClosesLive Hashing.sample.toDigests 1 errorCycle 0 (.empty 1) .empty :=
  (neverClosesLive_iff (.nil _) errorCycle 0 .empty).mpr (.inr (.inr (.inr fun i hi hlive _ => by
    have hall : ∀ i ∈ (beforeResolve Hashing.sample.toDigests 1 errorCycle (.empty 1)
        .empty).2.store.rows, i.rule = "host_down_syslog" ∧
          FoundAgain Hashing.sample.digest16 errorCycle i := by decide +kernel
    obtain ⟨hrule, hfound⟩ := hall i hi
    rw [hrule]
    exact ⟨by decide, by decide, fun h => absurd h (by decide +kernel), hfound⟩)))

/-- Host 2 is behind host 1, and both are down: an upstream failure. -/
def upstreamCycle : Cycle :=
  Cycle.ofHosts [.down 1 "10.0.0.1", .down 2 "10.0.0.2"] (by decide) (by decide)
    [(1, none), (2, some 1)] 1 100

/-- A cycle that opens an incident for an upstream failure resolves it at once. -/
theorem not_neverClosesLive_upstreamCycle :
    ¬ NeverClosesLive Hashing.sample.toDigests 1 upstreamCycle 0 (.empty 1) .empty := by
  intro hnever
  have hopened : ∃ i ∈ (beforeResolve Hashing.sample.toDigests 1 upstreamCycle (.empty 1)
      .empty).2.store.rows, i.live = true ∧ ∃ x ∈ (beforeResolve Hashing.sample.toDigests 1
        upstreamCycle (.empty 1) .empty).2.touched, x.2 = i.id := by decide +kernel
  have hclosed : ∀ j ∈ (runCorrelation Hashing.sample.toDigests 1 upstreamCycle (.empty 1)
      .empty).2.store.rows, j.live = false := by decide +kernel
  obtain ⟨i, hi, hlive, ⟨f, id⟩, hx, rfl⟩ := hopened
  obtain ⟨j, hj, -, hjlive⟩ := hnever (by decide) i hi hlive (.inl ⟨f, hx⟩)
  rw [hclosed j hj] at hjlive
  cases hjlive

/-! ### Incidents whose hosts are back -/

/-- None of the hosts is offline, and none has a failing service check. -/
def Recovered (c : Cycle) (ids : List ℕ) : Prop :=
  ∀ id ∈ ids, (∀ x ∈ c.offline, x.id ≠ id) ∧ id ∉ c.lookups.portErrors

instance (c : Cycle) (ids : List ℕ) : Decidable (Recovered c ids) :=
  inferInstanceAs (Decidable (∀ id ∈ ids, _))

theorem mem_of_hostIdsHash_eq {digest : String → String} (hdigest : Function.Injective digest)
    {id : ℕ} {ids : List ℕ} (hhash : hostIdsHash digest [id] = hostIdsHash digest ids) :
    id ∈ ids := by
  have hsort := insertionSort_eq_of_hostIdsHash hdigest hhash
  rw [← List.mem_insertionSort (· ≤ ·), ← hsort]
  simp

/-- When the hosts on record are back, the auto-resolve keeps an incident about them open only for
other hosts that are offline. -/
theorem hostsAreBack_of_recovered (hdigest : Function.Injective h.digest16) {rule : String}
    (hrule : rule ∈ hostRules) {ids : List ℕ} (hids : Recovered c ids) :
    hostsAreBack h.digest16 c.lookups c.offline rule (hostIdsHash h.digest16 ids) = true ↔
      (rule = "multi_host_down" → c.offline.length < 3) := by
  have hoffline : ∀ x ∈ c.offline, hostIdsHash h.digest16 [x.id] ≠ hostIdsHash h.digest16 ids :=
    fun x hx hhash => (hids x.id (mem_of_hostIdsHash_eq hdigest hhash)).1 x hx rfl
  have hfailing : ∀ id ∈ c.lookups.portErrors,
      hostIdsHash h.digest16 [id] ≠ hostIdsHash h.digest16 ids :=
    fun id hid hhash => (hids id (mem_of_hostIdsHash_eq hdigest hhash)).2 hid
  simp only [hostRules, List.mem_cons, List.not_mem_nil, or_false] at hrule
  rcases hrule with rfl | rfl | rfl | rfl | rfl
  · simpa [hostsAreBack] using fun x hx hhash => absurd hhash (hoffline x hx)
  · simp [hostsAreBack]
  · simp [hostsAreBack]
  · simpa [hostsAreBack] using hoffline
  · simpa [hostsAreBack] using hfailing

/-- An open incident about hosts is still open, with its key, when the auto-resolve begins. -/
theorem exists_beforeResolve (hvalid : s.Valid) (hi : i ∈ s.rows) (hlive : i.live = true)
    (hrule : i.rule ∈ hostRules) :
    ∃ j ∈ (beforeResolve h tenant c s tracker).2.store.rows, j.id = i.id ∧ j.rule = i.rule ∧
      j.hostIdsHash = i.hostIdsHash ∧ j.live = true := by
  have hwrites : Writes h.digest16 (RuleWrite c.allFindings) s
      (afterRules h tenant c s tracker).2.store := writes_afterRules
  have hrules : (afterRules h tenant c s tracker).2.store.Valid := valid_afterRules hvalid
  obtain ⟨j, hj, hid, hjrule, hhash, hjlive⟩ := exists_row_of_writes
    (R := fun j => j.id = i.id ∧ j.rule = i.rule ∧ j.hostIdsHash = i.hostIdsHash ∧ j.live = true)
    hwrites
    (fun _ _ _ hR => hR)
    (fun f k hf hR => by
      obtain ⟨t, ht⟩ := hf k
      rw [ht]
      exact hR)
    ⟨i, hi, rfl, rfl, rfl, hlive⟩
  obtain ⟨g, hstore, -, hother⟩ := exists_orphansStep (h := h) (c := c) hrules
  refine ⟨j, ?_, hid, hjrule, hhash, hjlive⟩
  have hskip := not_skipped hrule
  simp only [List.mem_cons, List.not_mem_nil, or_false, not_or] at hskip
  simp only [beforeResolve]
  rw [hstore]
  exact List.mem_map.mpr ⟨j, hj, hother j hj (hjrule ▸ hskip.2.2.1) (hjrule ▸ hskip.2.2.2)⟩

/-- **When an incident whose hosts are back is resolved**: in the next complete cycle, whatever a
tenant's table, unless it is about several hosts and three hosts or more are offline. -/
theorem resolved_iff_of_recovered (hdigest : Function.Injective h.digest16) {next : ℕ}
    {events : List TenantEvent} (hrun : TenantRun h tenant (.empty next) events s)
    (hcomplete : (runCorrelation h tenant c s tracker).1 = true) (hi : i ∈ s.rows)
    (hlive : i.live = true) (hrule : i.rule ∈ hostRules) {ids : List ℕ}
    (hids : i.hostIds = some ids) (hrecovered : Recovered c ids) :
    (∃ j ∈ (runCorrelation h tenant c s tracker).2.store.rows,
        j.id = i.id ∧ j.status = .resolved) ↔
      (i.rule = "multi_host_down" → c.offline.length < 3) := by
  have hvalid := valid_of_run hrun
  have hkey := recorded_of_run hrun i hi hrule ids hids
  obtain ⟨j, hj, hid, hjrule, hjhash, hjlive⟩ :
      ∃ j ∈ (beforeResolve h tenant c s tracker).2.store.rows, j.id = i.id ∧ j.rule = i.rule ∧
        j.hostIdsHash = i.hostIdsHash ∧ j.live = true :=
    exists_beforeResolve hvalid hi hlive hrule
  have hresolve : shouldResolve h.digest16 c.lookups c.offline c.resolveAt j = true ↔
      (i.rule = "multi_host_down" → c.offline.length < 3) := by
    rw [← hostsAreBack_of_recovered hdigest hrule hrecovered, ← hjrule]
    rw [← hjrule] at hrule
    rw [shouldResolve_eq (not_resolvesByTimeout hrule) (not_skipped hrule) (hjhash.trans hkey)
      (h.ne_empty16 _)]
  obtain ⟨hsettings, hoffline, -, hfault, -⟩ := of_complete hcomplete
  have hbefore : (beforeResolve h tenant c s tracker).2.store.Valid := valid_beforeResolve hvalid
  rw [← hresolve, store_runCorrelation hsettings, store_resolveStep, if_pos ⟨hoffline, hfault⟩]
  constructor
  · rintro ⟨k, hk, hkid, hstatus⟩
    obtain ⟨j', hj', rfl⟩ := List.mem_map.mp hk
    rw [(keeps_autoResolve _ _ _ _).id, ← hid] at hkid
    obtain rfl := hbefore.eq_of_id hj' hj hkid
    split at hstatus
    · simp_all
    · simp [Incident.live, hstatus] at hjlive
  · intro hshould
    exact ⟨j.resolve c.resolveAt, List.mem_map.mpr ⟨j, hj, by simp [hjlive, hshould]⟩, hid, rfl⟩

/-- The incident that `errorCycle` opens. -/
def errorIncident : Incident where
  id := 1
  rule := "host_down_syslog"
  title := "10.0.0.1 offline with syslog errors"
  severity := .critical
  status := .opened
  hostIdsHash := some "6b86b273ff34fce1"
  hostIds := some [1]
  updatedAt := 100
  resolvedAt := none
  precursorTemplate := none

/-- A cycle that finds every host back. -/
def quietCycle : Cycle := Cycle.ofHosts [] List.nodup_nil pos_noHosts [] 1 101

/-- Host 1 is back, and its incident is resolved. -/
theorem resolved_errorIncident :
    ∃ j ∈ (runCorrelation Hashing.sample.toDigests 1 quietCycle
      ((TenantEvent.cycle errorCycle .empty).apply Hashing.sample.toDigests 1 (.empty 1))
        .empty).2.store.rows, j.id = 1 ∧ j.status = .resolved :=
  (resolved_iff_of_recovered (i := errorIncident) tabulated_injective
    (.cons (a := .cycle errorCycle .empty) rfl (.nil _)) (by decide +kernel) (by decide +kernel)
    rfl (by decide) rfl (by decide +kernel)).mpr (by decide +kernel)

/-- Three hosts are down in one network. -/
def outageCycle : Cycle :=
  Cycle.ofHosts [.down 1 "10.0.0.1", .down 2 "10.0.0.2", .down 3 "10.0.0.3"] nodup_threeHosts
    pos_threeHosts [] 1 100

/-- A minute later they are back, and three other hosts are down. -/
def otherOutageCycle : Cycle :=
  Cycle.ofHosts [.down 4 "10.0.1.4", .down 5 "10.0.1.5", .down 6 "10.0.1.6"] (by decide) (by decide)
    [] 1 101

/-- The table and the streaks after the first of the two outages. -/
def afterOutage : Progress :=
  (runCorrelation Hashing.sample.toDigests 1 outageCycle (.empty 1) .empty).2

/-- The incident about hosts that are back stays open. -/
theorem not_resolved_afterOutage :
    (runCorrelation Hashing.sample.toDigests 1 otherOutageCycle afterOutage.store
      afterOutage.tracker).1 = true ∧
    ∃ i ∈ afterOutage.store.rows, i.live = true ∧ i.rule = "multi_host_down" ∧
      i.hostIds = some [1, 2, 3] ∧ Recovered otherOutageCycle [1, 2, 3] ∧
      ¬ ∃ j ∈ (runCorrelation Hashing.sample.toDigests 1 otherOutageCycle afterOutage.store
        afterOutage.tracker).2.store.rows, j.id = i.id ∧ j.status = .resolved := by
  decide +kernel

end AutoResolve

end Nodeglow.Incidents
