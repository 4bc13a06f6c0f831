import Mathlib.Data.Rat.Floor
import Nodeglow.Backend.AlertRules.RuleIncidents

/-!
# How long the incident of an alert rule lives

The passes over the alert rules and the correlation cycles both run every minute. An alert rule
about syslog messages writes its incident when it fires, and a cycle resolves the incident when it
was not written for ten minutes, with the reason that the condition of the rule is no longer met.
Between two firings of a rule whose condition stays true lie its cooldown and the passes in which it
counts. Where these take more than ten minutes, the incident is resolved although the condition is
met.

A job has taken effect at most a lag, which is a parameter, after it is due. A pass reads the clock
when it has read the rules, and that time is what the cooldown begins with and what it is compared
with. So a pass at the end of the cooldown that is a little earlier in its minute than the firing
was is still in the cooldown.

## Main results

* `Watched.pass`, `Watched.cycle` — what is known between two firings.
* `lives_iff` — the incident lives as long as the condition exactly if the gap is short enough.

Source: `backend/services/rules.py`, lines 114–264; `backend/services/correlation.py`, lines
887–948; `backend/scheduler.py`, lines 1348 and 1385.
-/

namespace Nodeglow.AlertRules

open Incidents

/-! ### The schedule -/

/-- The first pass after a firing that the cooldown does not leave out, where no job is late. -/
def AlertRule.cooldownPasses (r : AlertRule) : ℕ := (max 1 r.cooldownMinutes).toNat

/-- The first pass after a firing that the cooldown cannot leave out. -/
def AlertRule.restPasses (r : AlertRule) (lag : ℚ) : ℕ :=
  r.cooldownPasses + if 1 ≤ r.cooldownMinutes ∧ 0 < lag then 1 else 0

/-- The greatest number of passes from one firing to the next, while the condition is true. -/
def AlertRule.gap (r : AlertRule) (lag : ℚ) : ℕ := r.restPasses lag + r.minConsecutive - 1

/-- A rule as firing leaves it. -/
def AlertRule.firedAt (r : AlertRule) (now : ℚ) : AlertRule :=
  { r with lastTriggeredAt := some now }

/-- The state with the times at which the last job and the last pass took effect, and the times at
which the next ones are due. -/
structure Clockwork where
  state : State
  tracker : Tracker
  clock : ℚ
  lastPass : ℚ
  nextPass : ℚ
  nextCycle : ℚ

/-- After a pass over the alert rules. -/
def Clockwork.afterPass (b : Builtins) (h : Digests) (p : Pass) (committedAt : ℚ)
    (t : Clockwork) : Clockwork :=
  { t with
    state := (evaluateRules b h.digest16 p t.state).2
    clock := committedAt
    lastPass := committedAt
    nextPass := t.nextPass + 1 }

/-- After a correlation cycle. -/
def Clockwork.afterCycle (h : Digests) (tenant : ℕ) (c : Cycle) (readAt : ℚ) (t : Clockwork) :
    Clockwork :=
  { t with
    state := { t.state with store := (runCorrelation h tenant c t.state.store t.tracker).2.store }
    tracker := (runCorrelation h tenant c t.state.store t.tracker).2.tracker
    clock := readAt
    nextCycle := t.nextCycle + 1 }

/-- A cycle reads and writes no rules. -/
theorem afterCycle_rules {h : Digests} {tenant : ℕ} {c : Cycle} {readAt : ℚ} {t : Clockwork} :
    (t.afterCycle h tenant c readAt).state.rules = t.state.rules := by
  rw [Clockwork.afterCycle]

/-- `run_alert_rules` and `run_correlation`. -/
inductive Job
  | pass (p : Pass)
  | cycle (c : Cycle)

/-- The condition of a rule is true in a pass, and nothing keeps the rule from firing. -/
def TrueIn (b : Builtins) (p : Pass) (rules : List AlertRule) (id : ℕ) : Prop :=
  ∀ q ∈ rules, q.id = id → q ∈ p.reached rules ∧ verdict b p q = .holds ∧ p.fireRaises q = false

/-- The jobs run every minute, each with a lag, in the order in which a pass commits and a cycle
reads the open incidents. A pass begins when the one before it has ended. The condition of a rule is
true in every pass. -/
inductive Regular (b : Builtins) (h : Digests) (tenant : ℕ) (lag : ℚ) (id : ℕ) :
    Clockwork → Job → Clockwork → Prop
  | pass {t : Clockwork} {p : Pass} {committedAt : ℚ} (hdue : t.nextPass ≤ p.now)
      (hlast : t.lastPass ≤ p.now) (hwritten : p.now ≤ p.writtenAt)
      (hcommitted : p.writtenAt ≤ committedAt) (hlag : committedAt ≤ t.nextPass + lag)
      (hclock : t.clock ≤ committedAt) (hcycle : committedAt ≤ t.nextCycle + lag)
      (htrue : TrueIn b p t.state.rules id) :
      Regular b h tenant lag id t (.pass p) (t.afterPass b h p committedAt)
  | cycle {t : Clockwork} {c : Cycle} {readAt : ℚ} (hdue : t.nextCycle ≤ c.now)
      (hread : c.now ≤ readAt) (hresolve : readAt ≤ c.resolveAt)
      (hlag : c.resolveAt ≤ t.nextCycle + lag) (hclock : t.clock ≤ readAt)
      (hpass : readAt ≤ t.nextPass + lag) :
      Regular b h tenant lag id t (.cycle c) (t.afterCycle h tenant c readAt)

/-- A pass in which a rule about syslog messages fires, which opens its incident. -/
structure Opening (b : Builtins) (r : AlertRule) (s : State) (p : Pass) : Prop where
  ids : (s.rules.map AlertRule.id).Nodup
  valid : s.store.Valid
  mem : r ∈ s.rules
  syslog : r.sourceType = "syslog"
  holds : TrueIn b p s.rules r.id
  fires : Fires b p s r
  written : p.now ≤ p.writtenAt

/-- The state after such a pass, with the next pass and the next cycle due in a minute. -/
def Opened (b : Builtins) (h : Digests) (lag : ℚ) (r : AlertRule) (t : Clockwork) : Prop :=
  ∃ s p, ∃ due ≤ p.now, Opening b r s p ∧ p.writtenAt ≤ t.clock ∧ t.clock ≤ due + lag ∧
    t.state = (evaluateRules b h.digest16 p s).2 ∧ t.lastPass = t.clock ∧ t.nextPass = due + 1 ∧
      t.clock ≤ t.nextCycle + lag ∧ t.nextCycle ≤ t.clock + 1

/-- Once a rule has opened its incident, no cycle of a regular run resolves it. -/
def Lives (b : Builtins) (h : Digests) (tenant : ℕ) (lag : ℚ) (r : AlertRule) : Prop :=
  ∀ t₀ jobs t c t', Opened b h lag r t₀ → Run (Regular b h tenant lag r.id) t₀ jobs t →
    Regular b h tenant lag r.id t (.cycle c) t' →
      ∀ i ∈ t.state.store.rows, r.Owns h.digest16 i →
        ∀ j ∈ t'.state.store.rows, j.id = i.id → j.live = true

/-! ### Between two firings -/

/-- A rule fired at a time, and the next pass is not later than the cooldown and the passes in which
it has counted since then explain. -/
structure Watched (digest : String → String) (r : AlertRule) (lag fired : ℚ)
    (t : Clockwork) : Prop where
  ids : (t.state.rules.map AlertRule.id).Nodup
  last : fired ≤ t.lastPass
  aligned : lag = 0 → ∃ k : ℤ, t.nextPass = fired + k
  resting : ∃ n : Option ℕ, n.getD 0 + 1 ≤ r.minConsecutive ∧
    t.nextPass ≤ fired + r.restPasses lag + n.getD 0 ∧
      Resting digest (r.firedAt fired) n fired t.state

variable {b : Builtins} {h : Digests} {tenant : ℕ} {lag fired due ε : ℚ} {r : AlertRule}
  {t t' : Clockwork} {p : Pass} {c : Cycle} {k m : ℕ} {i j : Incident}

theorem one_le_restPasses (r : AlertRule) (lag : ℚ) : 1 ≤ r.restPasses lag := by
  unfold AlertRule.restPasses AlertRule.cooldownPasses
  omega

theorem cooling_firedAt {now : ℚ} :
    (r.firedAt fired).cooling now = true ↔ now < fired + r.cooldownMinutes :=
  decide_eq_true_iff

/-- **The end of the cooldown.** The pass after one that the cooldown leaves out is due soon. -/
theorem next_le_of_cooling {now next : ℚ} (hlag : 0 ≤ lag) (hfired : fired ≤ now)
    (hnext : next ≤ now) (haligned : lag = 0 → ∃ k : ℤ, next = fired + k)
    (hcooling : (r.firedAt fired).cooling now = true) :
    next + 1 ≤ fired + r.restPasses lag := by
  rw [cooling_firedAt] at hcooling
  have hpos : 1 ≤ r.cooldownMinutes := by
    have hlt : (0 : ℚ) < r.cooldownMinutes := by linarith
    exact Int.cast_pos.mp hlt
  have hrest : ((r.restPasses lag : ℕ) : ℚ) = r.cooldownMinutes + if 0 < lag then 1 else 0 := by
    have hmax : (r.cooldownPasses : ℤ) = r.cooldownMinutes := by
      unfold AlertRule.cooldownPasses
      omega
    rw [AlertRule.restPasses, Nat.cast_add, ← Int.cast_natCast, hmax]
    simp [hpos]
  rw [hrest]
  rcases hlag.eq_or_lt with hzero | hlate
  · obtain ⟨k, rfl⟩ := haligned hzero.symm
    have hk : (k : ℚ) < r.cooldownMinutes := by linarith
    have hsucc : (k : ℚ) + 1 ≤ r.cooldownMinutes := by
      exact_mod_cast Int.add_one_le_of_lt (Int.cast_lt.mp hk)
    rw [if_neg (by rw [← hzero]; exact lt_irrefl 0)]
    linarith
  · rw [if_pos hlate]
    linarith

theorem WrittenSince.mono {digest : String → String} {since since' : ℚ} {s : Store}
    (hs : WrittenSince digest r since s) (hle : since' ≤ since) : WrittenSince digest r since' s :=
  fun i hi howns => hle.trans (hs i hi howns)

/-- A pass in which the condition is true gets to the rule. -/
theorem TrueIn.judge {rules : List AlertRule} {q : AlertRule} (htrue : TrueIn b p rules q.id)
    (hq : q ∈ rules) (hcooling : q.cooling p.now = false) :
    q ∈ p.reached rules ∧ p.judge b q = .held ∧ p.fireRaises q = false := by
  obtain ⟨hreached, hholds, hraises⟩ := htrue q hq rfl
  exact ⟨hreached, by simp [Pass.judge, hcooling, hholds], hraises⟩

/-- The rule has fired, and the next pass is due in a minute. -/
theorem watched_of_fires {s : State} {q : AlertRule} {n : Option ℕ} {since : ℚ}
    (hids : (s.rules.map AlertRule.id).Nodup) (hs : Resting h.digest16 q n since s)
    (hq : q.firedAt p.now = r.firedAt p.now) (hsince : since ≤ p.writtenAt)
    (htrue : TrueIn b p s.rules q.id) (hcooling : q.cooling p.now = false)
    (hcount : q.minConsecutive ≤ n.getD 0 + 1) (hsyslog : q.sourceType = "syslog")
    (hwritten : p.now ≤ p.writtenAt) (hdue : due ≤ p.now) (hpunctual : lag = 0 → due = p.now)
    (hstate : t.state = (evaluateRules b h.digest16 p s).2) (hlast : p.now ≤ t.lastPass)
    (hnext : t.nextPass = due + 1) : Watched h.digest16 r lag p.now t := by
  obtain ⟨hreached, hheld, hraises⟩ := htrue.judge hs.row hcooling
  have hafter := fired_evaluateRules hids hs hreached hsince hheld hcount hraises hsyslog
  have hrest : (1 : ℚ) ≤ r.restPasses lag := Nat.one_le_cast.mpr (one_le_restPasses r lag)
  refine ⟨?_, hlast, fun hzero => ⟨1, ?_⟩, some 0, r.minConsecutive_pos, ?_, ?_⟩
  · rw [hstate, ids_evaluateRules]
    exact hids
  · rw [hnext, hpunctual hzero, Int.cast_one]
  · rw [hnext, Option.getD_some, Nat.cast_zero]
    linarith
  · rw [hstate, ← hq]
    exact ⟨hafter.row, hafter.counts, hafter.valid, hafter.written.mono hwritten⟩

theorem exists_writtenSince (digest : String → String) (r : AlertRule) (s : Store) (now : ℚ) :
    ∃ since ≤ now, WrittenSince digest r since s := by
  obtain ⟨rows, next⟩ := s
  induction rows with
  | nil => exact ⟨now, le_rfl, fun i hi => by cases hi⟩
  | cons i rows ih =>
    obtain ⟨since, hle, hsince⟩ := ih
    refine ⟨min since i.updatedAt, (min_le_left _ _).trans hle, fun j hj howns => ?_⟩
    rcases List.mem_cons.mp hj with rfl | hj
    · exact min_le_right _ _
    · exact (min_le_left _ _).trans (hsince j hj howns)

theorem Opening.watched {s : State} (hopening : Opening b r s p) (hdue : due ≤ p.now)
    (hlast : p.writtenAt ≤ t.lastPass) (hlag : t.lastPass ≤ due + lag)
    (hstate : t.state = (evaluateRules b h.digest16 p s).2) (hnext : t.nextPass = due + 1) :
    Watched h.digest16 r lag p.now t := by
  obtain ⟨hids, hvalid, hmem, hsyslog, hholds, ⟨hheld, hcount⟩, hwritten⟩ := hopening
  obtain ⟨since, hsince, hwrittenSince⟩ := exists_writtenSince h.digest16 r s.store p.writtenAt
  have hjudge : p.judge b r = .held := by
    rw [← hheld, entry_of_mem_reached (hholds r hmem rfl).1]
  have hcooling : r.cooling p.now = false := by
    by_contra hcooling
    rw [Bool.not_eq_false] at hcooling
    simp [Pass.judge, hcooling] at hjudge
  exact watched_of_fires hids ⟨hmem, rfl, hvalid, hwrittenSince⟩ rfl hsince hholds hcooling hcount
    hsyslog hwritten hdue (fun hzero => by linarith) hstate (hwritten.trans hlast) hnext

/-- **Between two firings, a pass.** The rule cools down, counts, or fires again. -/
theorem Watched.pass {committedAt : ℚ} (hw : Watched h.digest16 r lag fired t) (hlag : 0 ≤ lag)
    (hsyslog : r.sourceType = "syslog") (hdue : t.nextPass ≤ p.now) (hlast : t.lastPass ≤ p.now)
    (hwritten : p.now ≤ p.writtenAt) (hcommitted : p.writtenAt ≤ committedAt)
    (hlate : committedAt ≤ t.nextPass + lag) (htrue : TrueIn b p t.state.rules r.id) :
    ∃ fired', Watched h.digest16 r lag fired' (t.afterPass b h p committedAt) := by
  obtain ⟨n, hn, hnext, hresting⟩ := hw.resting
  have hfired : fired ≤ p.now := hw.last.trans hlast
  have hsince : fired ≤ p.writtenAt := hfired.trans hwritten
  have hids : (((t.afterPass b h p committedAt).state.rules).map AlertRule.id).Nodup := by
    rw [Clockwork.afterPass, ids_evaluateRules]
    exact hw.ids
  have hafter : fired ≤ (t.afterPass b h p committedAt).lastPass := hsince.trans hcommitted
  have haligned : lag = 0 → ∃ k : ℤ, (t.afterPass b h p committedAt).nextPass = fired + k := by
    intro hzero
    obtain ⟨k, hk⟩ := hw.aligned hzero
    exact ⟨k + 1, by rw [Clockwork.afterPass, hk, Int.cast_add, Int.cast_one, add_assoc]⟩
  by_cases hcooling : (r.firedAt fired).cooling p.now = true
  · refine ⟨fired, hids, hafter, haligned, n, hn, ?_, ?_⟩
    · have hrest := next_le_of_cooling hlag hfired hdue hw.aligned hcooling
      have hcount : (0 : ℚ) ≤ n.getD 0 := Nat.cast_nonneg _
      simp only [Clockwork.afterPass]
      linarith
    · exact cooled_evaluateRules hw.ids hresting (htrue _ hresting.row rfl).1 hsince hcooling
  · rw [Bool.not_eq_true] at hcooling
    obtain ⟨hreached, hheld, -⟩ := TrueIn.judge (q := r.firedAt fired) htrue hresting.row hcooling
    by_cases hcount : n.getD 0 + 1 < r.minConsecutive
    · refine ⟨fired, hids, hafter, haligned, some (n.getD 0 + 1), hcount, ?_,
        counted_evaluateRules hw.ids hresting hreached hsince hheld hcount⟩
      simp only [Clockwork.afterPass, Option.getD_some, Nat.cast_add, Nat.cast_one]
      linarith
    · exact ⟨p.now, watched_of_fires hw.ids hresting rfl hsince htrue hcooling
        (Nat.le_of_not_lt hcount) hsyslog hwritten hdue (fun hzero => by linarith) rfl
        (hwritten.trans hcommitted) rfl⟩

/-- **Between two firings, a cycle.** It leaves what is known, whether or not it resolves the
incident. -/
theorem Watched.cycle {readAt : ℚ} (hw : Watched h.digest16 r lag fired t) :
    Watched h.digest16 r lag fired (t.afterCycle h tenant c readAt) := by
  obtain ⟨n, hn, hnext, hrow, hcounts, hvalid, hwritten⟩ := hw.resting
  refine ⟨hw.ids, hw.last, hw.aligned, n, hn, hnext, hrow, hcounts, valid_runCorrelation hvalid,
    fun j hj howns => ?_⟩
  have halert : isAlertRule j.rule = true := howns.2.1 ▸ isAlertRule_incidentRule r
  obtain ⟨i, hi, -, hrule, hhash, ⟨hstatus, hupdated⟩ | ⟨-, hresolved⟩⟩ :=
    exists_of_leftOrResolved hvalid hj halert
  · rw [hupdated]
    refine hwritten i hi ⟨?_, hrule ▸ howns.2.1, hhash ▸ howns.2.2⟩
    have hlive := howns.1
    rwa [Incident.live, hstatus] at hlive
  · have hlive := howns.1
    simp [Incident.live, hresolved] at hlive

/-- A cycle resolves the incident only if the rule did not write it for ten minutes. -/
theorem Watched.live_or_late {readAt : ℚ} (hw : Watched h.digest16 r lag fired t)
    (hi : i ∈ t.state.store.rows) (howns : r.Owns h.digest16 i)
    (hj : j ∈ (t.afterCycle h tenant c readAt).state.store.rows) (hid : j.id = i.id) :
    j.live = true ∨ i.updatedAt < c.resolveAt - 10 := by
  obtain ⟨n, -, -, -, -, hvalid, -⟩ := hw.resting
  have halert : isAlertRule i.rule = true := howns.2.1 ▸ isAlertRule_incidentRule r
  obtain ⟨j', hj', hid', -, -, hcase⟩ := exists_leftOrResolved h tenant c t.tracker hvalid hi halert
  obtain rfl := (valid_runCorrelation hvalid).eq_of_id hj hj' (hid.trans hid'.symm)
  rcases hcase with ⟨hstatus, -⟩ | ⟨hlate, -⟩
  · have hlive := howns.1
    rw [Incident.live, ← hstatus] at hlive
    exact .inl hlive
  · exact .inr hlate

theorem Watched.regular {job : Job} (hw : Watched h.digest16 r lag fired t) (hlag : 0 ≤ lag)
    (hsyslog : r.sourceType = "syslog") (hstep : Regular b h tenant lag r.id t job t') :
    ∃ fired', Watched h.digest16 r lag fired' t' := by
  cases hstep with
  | pass hdue hlast hwritten hcommitted hlate _ _ htrue =>
    exact hw.pass hlag hsyslog hdue hlast hwritten hcommitted hlate htrue
  | cycle => exact ⟨fired, hw.cycle⟩

/-- **Short gaps.** The rule writes its incident before a cycle can find it old. -/
theorem lives_of_gap (hlag : 0 ≤ lag)
    (hgap : r.sourceType = "syslog" → r.gap lag + 2 * lag ≤ 10) : Lives b h tenant lag r := by
  rintro t₀ jobs t c t' ⟨s, p, due, hdue, hopening, hclock, hlate, hstate, hlast, hnext, -⟩ hrun
    hstep i hi howns j hj hid
  have hsyslog := hopening.syslog
  have hwatched : ∃ fired, Watched h.digest16 r lag fired t :=
    hrun.invariant (I := fun t => ∃ fired, Watched h.digest16 r lag fired t)
      (fun _ _ _ ⟨_, hw⟩ hstep => hw.regular hlag hsyslog hstep)
      ⟨p.now, hopening.watched hdue (hlast ▸ hclock) (hlast ▸ hlate) hstate hnext⟩
  obtain ⟨fired, hw⟩ := hwatched
  cases hstep with
  | cycle hdue hread _ hlate' _ hpass =>
    refine (hw.live_or_late hi howns hj hid).resolve_right fun hold => ?_
    obtain ⟨n, hn, hnext', hresting⟩ := hw.resting
    have hsince : fired ≤ i.updatedAt := hresting.written i hi howns
    have hshort := hgap hsyslog
    have hcount : ((r.restPasses lag + n.getD 0 : ℕ) : ℚ) ≤ r.gap lag := by
      refine Nat.cast_le.mpr ?_
      unfold AlertRule.gap
      omega
    rw [Nat.cast_add] at hcount
    linarith

/-! ### Long gaps -/

/-- A pass in which every rule about syslog messages has a match. -/
def matchingPass (now writtenAt : ℚ) : Pass where
  now := now
  writtenAt := writtenAt
  rulesRead := true
  cancelledAfter := none
  sourceData _ := none
  matchCount _ := some 1
  fireRaises _ := false

/-- A cycle in which nothing raises and nothing is observed. -/
def idleCycle (now resolveAt : ℚ) : Cycle :=
  { Cycle.ofHosts [] List.nodup_nil pos_noHosts [] 1 now with resolveAt := resolveAt }

theorem trueIn_matchingPass {now writtenAt : ℚ} {rules : List AlertRule} {id : ℕ}
    (hrules : ∀ q ∈ rules, q.enabled = true ∧ q.sourceType = "syslog") :
    TrueIn b (matchingPass now writtenAt) rules id := by
  intro q hq _
  obtain ⟨henabled, hsyslog⟩ := hrules q hq
  refine ⟨?_, by simp [verdict, hsyslog, matchingPass], rfl⟩
  simpa [Pass.reached, matchingPass] using ⟨hq, henabled⟩

/-- How late in its minute the rule fires: at once, or so late that the pass at the end of the
cooldown is still in it. -/
structure Delay (r : AlertRule) (lag ε : ℚ) : Prop where
  nonneg : 0 ≤ ε
  le_lag : ε ≤ lag
  le_phase : ε ≤ lag + 1 - ⌈lag⌉₊
  old : ε + 10 < r.gap lag + 2 * lag
  cooling : ∀ k : ℕ, 1 ≤ k → ((k : ℚ) < ε + r.cooldownMinutes ↔ k < r.restPasses lag)

theorem phase_pos (hlag : 0 ≤ lag) : 0 < lag + 1 - ⌈lag⌉₊ :=
  sub_pos.mpr (Nat.ceil_lt_add_one hlag)

theorem phase_le_one (lag : ℚ) : lag + 1 - ⌈lag⌉₊ ≤ 1 := by
  have hceil := Nat.le_ceil lag
  linarith

theorem exists_delay (hlag : 0 ≤ lag) (hgap : 10 < r.gap lag + 2 * lag) : ∃ ε, Delay r lag ε := by
  have hphase := phase_pos hlag
  by_cases hlate : 1 ≤ r.cooldownMinutes ∧ 0 < lag
  · obtain ⟨hcooldown, hpos⟩ := hlate
    -- The least of three bounds, all of them positive.
    let ε := min (min lag (lag + 1 - ⌈lag⌉₊)) ((r.gap lag + 2 * lag - 10) / 2)
    have hε : 0 < ε := lt_min (lt_min hpos hphase) (by linarith)
    have hle : ε ≤ lag + 1 - ⌈lag⌉₊ := (min_le_left _ _).trans (min_le_right _ _)
    have hold : ε ≤ (r.gap lag + 2 * lag - 10) / 2 := min_le_right _ _
    refine ⟨ε, hε.le, (min_le_left _ _).trans (min_le_left _ _), hle, by linarith, fun k hk => ?_⟩
    have hrest : (r.restPasses lag : ℤ) = r.cooldownMinutes + 1 := by
      unfold AlertRule.restPasses AlertRule.cooldownPasses
      rw [if_pos ⟨hcooldown, hpos⟩]
      omega
    have hone := phase_le_one lag
    constructor
    · intro hlt
      have hlt' : ((k : ℤ) : ℚ) < ((r.cooldownMinutes + 1 : ℤ) : ℚ) := by
        push_cast
        linarith
      have hint := Int.cast_lt.mp hlt'
      omega
    · intro hlt
      have hint : (k : ℤ) ≤ r.cooldownMinutes := by omega
      have hcast : ((k : ℤ) : ℚ) ≤ r.cooldownMinutes := Int.cast_le.mpr hint
      push_cast at hcast
      linarith
  · refine ⟨0, le_rfl, hlag, hphase.le, by linarith, fun k hk => ?_⟩
    have hrest : r.restPasses lag = r.cooldownPasses := by
      rw [AlertRule.restPasses, if_neg hlate, add_zero]
    rw [zero_add, hrest, ← Int.cast_natCast, Int.cast_lt, AlertRule.cooldownPasses]
    omega

/-- The rule fired with its delay, `k` passes and `m` cycles are behind, and the incident was not
written since. -/
structure Waiting (digest : String → String) (r : AlertRule) (lag due ε : ℚ) (k m : ℕ)
    (t : Clockwork) : Prop where
  rules : t.state.rules = [r.firedAt (due + ε)]
  count : t.state.count r.id = k + 1 - r.restPasses lag
  valid : t.state.store.Valid
  incident : ∃ i ∈ t.state.store.rows, r.Owns digest i ∧ i.updatedAt = due + ε
  clock : t.clock ≤ due + m + ε
  lastPass : t.lastPass ≤ due + k + ε
  nextPass : t.nextPass = due + k + 1
  nextCycle : t.nextCycle = due + m + (lag + 1 - ⌈lag⌉₊)

section Waiting

variable (hdelay : Delay r lag ε)
include hdelay

omit hdelay in
/-- A cycle that does not resolve the incident leaves it as it is. -/
theorem Waiting.incident_afterCycle {readAt : ℚ} (hw : Waiting h.digest16 r lag due ε k m t)
    (hlives : ∀ i ∈ t.state.store.rows, r.Owns h.digest16 i →
      ∀ j ∈ (t.afterCycle h tenant c readAt).state.store.rows, j.id = i.id → j.live = true) :
    ∃ j ∈ (t.afterCycle h tenant c readAt).state.store.rows,
      r.Owns h.digest16 j ∧ j.updatedAt = due + ε := by
  obtain ⟨i, hi, howns, hupdated⟩ := hw.incident
  have halert : isAlertRule i.rule = true := howns.2.1 ▸ isAlertRule_incidentRule r
  obtain ⟨j, hj, hid, hrule, hhash, hcase⟩ :=
    exists_leftOrResolved h tenant c t.tracker hw.valid hi halert
  have hlive := hlives i hi howns j hj hid
  refine ⟨j, hj, ⟨hlive, hrule.trans howns.2.1, hhash.trans howns.2.2⟩, ?_⟩
  rcases hcase with ⟨-, hsame⟩ | ⟨-, hresolved⟩
  · exact hsame.trans hupdated
  · simp [Incident.live, hresolved] at hlive

/-- A cycle later the rule still waits, if the cycle does not resolve the incident. -/
theorem Waiting.cycle (hw : Waiting h.digest16 r lag due ε k m t) (hm : m ≤ k + ⌈lag⌉₊)
    (hlives : ∀ c t', Regular b h tenant lag r.id t (.cycle c) t' →
      ∀ i ∈ t.state.store.rows, r.Owns h.digest16 i →
        ∀ j ∈ t'.state.store.rows, j.id = i.id → j.live = true) :
    ∃ job t', Regular b h tenant lag r.id t job t' ∧
      Waiting h.digest16 r lag due ε k (m + 1) t' := by
  obtain ⟨hnonneg, hle, hphase, -, -⟩ := hdelay
  have hone := phase_le_one lag
  have hclock := hw.clock
  have hcycle := hw.nextCycle
  have hpass := hw.nextPass
  have hmk : (m : ℚ) ≤ k + ⌈lag⌉₊ := by exact_mod_cast hm
  obtain ⟨c, hnow, hresolve⟩ : ∃ c : Cycle, c.now = t.nextCycle ∧ c.resolveAt = t.nextCycle :=
    ⟨idleCycle t.nextCycle t.nextCycle, rfl, rfl⟩
  have hstep : Regular b h tenant lag r.id t (.cycle c) (t.afterCycle h tenant c t.nextCycle) := by
    refine .cycle hnow.ge hnow.le hresolve.ge ?_ ?_ ?_ <;> linarith
  refine ⟨_, _, hstep, ?_, ?_, ?_, hw.incident_afterCycle (hlives c _ hstep), ?_, hw.lastPass,
    hw.nextPass, ?_⟩
  · rw [afterCycle_rules]
    exact hw.rules
  · rw [Clockwork.afterCycle]
    exact hw.count
  · rw [Clockwork.afterCycle]
    exact valid_runCorrelation hw.valid
  · rw [Clockwork.afterCycle, hcycle, Nat.cast_add, Nat.cast_one]
    linarith
  · rw [Clockwork.afterCycle, hcycle, Nat.cast_add, Nat.cast_one]
    ring

omit hdelay in
/-- In the turn of a rule whose condition is true, the rule cools down, counts, or fires. -/
theorem judge_matchingPass {now writtenAt : ℚ} {q : AlertRule} (hsyslog : q.sourceType = "syslog") :
    (matchingPass now writtenAt).judge b q =
      if q.cooling now then .skipped .cooling else .held := by
  simp [Pass.judge, verdict, hsyslog, matchingPass]

/-- A pass later the rule still waits, as long as its gap is not over. -/
theorem Waiting.pass (b : Builtins) (tenant : ℕ) (hw : Waiting h.digest16 r lag due ε k (k + 1) t)
    (hk : k + 1 < r.gap lag) (henabled : r.enabled = true) (hsyslog : r.sourceType = "syslog") :
    ∃ job t', Regular b h tenant lag r.id t job t' ∧
      Waiting h.digest16 r lag due ε (k + 1) (k + 1) t' := by
  obtain ⟨hnonneg, hle, hphase, -, hcooling⟩ := hdelay
  have hone := phase_le_one lag
  have hclock := hw.clock
  have hlast := hw.lastPass
  have hcycle := hw.nextCycle
  have hnext := hw.nextPass
  let q := r.firedAt (due + ε)
  let p := matchingPass t.nextPass t.nextPass
  have hrules : ∀ q' ∈ t.state.rules, q'.enabled = true ∧ q'.sourceType = "syslog" := by
    intro q' hq'
    rw [hw.rules] at hq'
    obtain rfl := List.mem_singleton.mp hq'
    exact ⟨henabled, hsyslog⟩
  have hstep : Regular b h tenant lag r.id t (.pass p)
      (t.afterPass b h p (t.nextPass + ε)) := by
    rw [Nat.cast_add, Nat.cast_one] at hclock hcycle
    have hnow : p.now = t.nextPass := rfl
    have hwritten : p.writtenAt = t.nextPass := rfl
    refine .pass le_rfl ?_ le_rfl ?_ ?_ ?_ ?_ (trueIn_matchingPass hrules) <;> linarith
  have hturn : (evaluateRules b h.digest16 p t.state).2 =
      (evaluateRule b h.digest16 p q t.state).2 := by
    have hreached : p.reached t.state.rules = [q] := by
      simp [p, q, Pass.reached, matchingPass, hw.rules, AlertRule.firedAt, henabled]
    rw [evaluateRules, hreached, evaluateAll, evaluateAll]
  have hcool : q.cooling p.now = true ↔ k + 1 < r.restPasses lag := by
    rw [cooling_firedAt, ← hcooling (k + 1) (Nat.le_add_left 1 k), Nat.cast_add, Nat.cast_one]
    simp only [p, matchingPass, hnext]
    constructor <;> intro hlt <;> linarith
  have hjudge : p.judge b q = if q.cooling p.now then .skipped .cooling else .held :=
    judge_matchingPass hsyslog
  have hcount : t.state.count q.id = k + 1 - r.restPasses lag := hw.count
  have hstate : (evaluateRules b h.digest16 p t.state).2.rules = t.state.rules ∧
      (evaluateRules b h.digest16 p t.state).2.store = t.state.store ∧
        (evaluateRules b h.digest16 p t.state).2.count r.id = k + 1 + 1 - r.restPasses lag := by
    rw [hturn]
    rcases evaluateRule_cases b h.digest16 p q t.state with ⟨⟨why, hskip⟩, hout⟩ | ⟨hfailed, -⟩ |
      ⟨hheld, -, hout⟩ | ⟨hheld, hfires, -⟩
    · have hcooled : k + 1 < r.restPasses lag := by
        by_contra hnot
        rw [hjudge, if_neg (mt hcool.mp hnot)] at hskip
        cases hskip
      rw [hout]
      refine ⟨rfl, rfl, hcount.trans ?_⟩
      omega
    · rw [hjudge] at hfailed
      split at hfailed <;> cases hfailed
    · have hcounts : ¬ k + 1 < r.restPasses lag := by
        intro hlt
        rw [hjudge, if_pos (hcool.mpr hlt)] at hheld
        cases hheld
      rw [hout]
      refine ⟨rfl, rfl, ?_⟩
      have hself : (t.state.setCount q.id (some (t.state.count q.id + 1))).count r.id =
          t.state.count q.id + 1 := by
        simp [State.count, q, AlertRule.firedAt]
      rw [hself, hcount]
      omega
    · -- A rule that is due is out of its cooldown, and then the gap is over.
      have hcounts : ¬ k + 1 < r.restPasses lag := by
        intro hlt
        rw [hjudge, if_pos (hcool.mpr hlt)] at hheld
        cases hheld
      have hmin : q.minConsecutive = r.minConsecutive := rfl
      unfold AlertRule.gap at hk
      omega
  obtain ⟨hsame, hstore, hafter⟩ := hstate
  refine ⟨_, _, hstep, hsame.trans hw.rules, hafter, ?_, ?_, ?_, ?_, ?_, hw.nextCycle⟩
  · simp only [Clockwork.afterPass, hstore]
    exact hw.valid
  · simp only [Clockwork.afterPass, hstore]
    exact hw.incident
  · simp only [Clockwork.afterPass, hnext, Nat.cast_add, Nat.cast_one]
    linarith
  · simp only [Clockwork.afterPass, hnext, Nat.cast_add, Nat.cast_one]
    linarith
  · simp only [Clockwork.afterPass, hnext, Nat.cast_add, Nat.cast_one]
    ring

end Waiting

/-- The state before a rule opens its incident: it has counted up to its last match. -/
def beforeOpening (r : AlertRule) : State where
  rules := [r]
  counts _ := some (r.minConsecutive - 1)
  store := .empty 1

/-- A time at which the cooldown of a rule is over. -/
def AlertRule.cooled (r : AlertRule) : ℚ :=
  (r.lastTriggeredAt.map fun triggered => triggered + (r.cooldownMinutes : ℚ)).getD 0

theorem cooling_of_cooled_le {now : ℚ} (hnow : r.cooled ≤ now) : r.cooling now = false := by
  unfold AlertRule.cooled at hnow
  unfold AlertRule.cooling
  cases hlast : r.lastTriggeredAt with
  | none => rfl
  | some triggered =>
    rw [hlast] at hnow
    exact decide_eq_false (not_lt.mpr hnow)

theorem count_beforeOpening (r : AlertRule) :
    (beforeOpening r).count r.id + 1 = r.minConsecutive := by
  have hmin := r.minConsecutive_pos
  simp only [State.count, beforeOpening, Option.getD_some]
  omega

/-- The rule opens its incident. -/
theorem evaluateRule_beforeOpening (digest : String → String) (hheld : p.judge b r = .held)
    (hraises : p.fireRaises r = false) (hsyslog : r.sourceType = "syslog") :
    (evaluateRule b digest p r (beforeOpening r)).2.rules = [r.firedAt p.now] ∧
      (evaluateRule b digest p r (beforeOpening r)).2.count r.id = 0 ∧
        (evaluateRule b digest p r (beforeOpening r)).2.store.Valid ∧
          ∃ i ∈ (evaluateRule b digest p r (beforeOpening r)).2.store.rows,
            r.Owns digest i ∧ i.updatedAt = p.writtenAt := by
  have hcount := count_beforeOpening r
  rcases evaluateRule_cases b digest p r (beforeOpening r) with ⟨⟨why, hother⟩, -⟩ | ⟨hother, -⟩ |
    ⟨-, hlt, -⟩ | ⟨-, -, ⟨hfire, -⟩ | ⟨s, hfire, hout⟩⟩
  · rw [hheld] at hother
    cases hother
  · rw [hheld] at hother
    cases hother
  · omega
  · simp [fire, hraises, hsyslog, findOrCreate, beforeOpening, Store.empty] at hfire
  · obtain ⟨-, hrules, -, ⟨-, id, notes, hfind⟩ | ⟨hother, -⟩⟩ := fire_cases hfire
    · have hvalid : s.store.Valid := (valid_empty 1).findOrCreate hfind
      rw [hout, State.setCount_rules, State.setCount_store, hrules]
      refine ⟨by simp [State.trigger, modifyRule, beforeOpening, AlertRule.firedAt],
        by simp [State.count], hvalid, ?_⟩
      rcases findOrCreate_cases hfind with ⟨i, hi, -⟩ | ⟨-, -, hstore, -⟩
      · cases hi
      · rw [hstore]
        exact ⟨_, List.mem_append_right _ (List.mem_singleton_self _), ⟨rfl, rfl, rfl⟩, rfl⟩
    · exact absurd hsyslog hother

/-- A state in which the rule has just opened its incident. -/
theorem exists_waiting (b : Builtins) (h : Digests) (hdelay : Delay r lag ε)
    (henabled : r.enabled = true) (hsyslog : r.sourceType = "syslog") :
    ∃ t due, Opened b h lag r t ∧ Waiting h.digest16 r lag due ε 0 0 t := by
  obtain ⟨hnonneg, hle, hphase, -, -⟩ := hdelay
  have hone := phase_le_one lag
  have hdue : r.cooled ≤ r.cooled + ε := le_add_of_nonneg_right hnonneg
  let p := matchingPass (r.cooled + ε) (r.cooled + ε)
  have htrue : TrueIn b p [r] r.id :=
    trueIn_matchingPass fun q hq => List.mem_singleton.mp hq ▸ ⟨henabled, hsyslog⟩
  obtain ⟨hreached, hheld, hraises⟩ :=
    htrue.judge (List.mem_singleton_self r) (cooling_of_cooled_le hdue)
  have hopening : Opening b r (beforeOpening r) p :=
    ⟨by simp [beforeOpening], valid_empty 1, List.mem_singleton_self r, hsyslog, htrue,
      ⟨(entry_of_mem_reached hreached).trans hheld, (count_beforeOpening r).ge⟩, le_rfl⟩
  have hstate : (evaluateRules b h.digest16 p (beforeOpening r)).2 =
      (evaluateRule b h.digest16 p r (beforeOpening r)).2 := by
    have hone : p.reached (beforeOpening r).rules = [r] := by
      simp [p, Pass.reached, matchingPass, beforeOpening, henabled]
    rw [evaluateRules, hone, evaluateAll, evaluateAll]
  obtain ⟨hrules, hcount, hvalid, hincident⟩ := evaluateRule_beforeOpening h.digest16 hheld hraises
    hsyslog
  let t : Clockwork :=
    { state := (evaluateRules b h.digest16 p (beforeOpening r)).2
      tracker := .empty
      clock := r.cooled + ε
      lastPass := r.cooled + ε
      nextPass := r.cooled + 1
      nextCycle := r.cooled + (lag + 1 - ⌈lag⌉₊) }
  refine ⟨t, r.cooled, ⟨_, p, r.cooled, hdue, hopening, le_rfl, ?_, rfl, rfl, rfl, ?_, ?_⟩, ?_⟩
  · simp only [t]
    linarith
  · simp only [t]
    linarith
  · simp only [t]
    linarith
  have hrest := one_le_restPasses r lag
  refine ⟨?_, ?_, ?_, ?_, ?_, ?_, ?_, ?_⟩
  · exact (congrArg State.rules hstate).trans hrules
  · simp only [t, hstate, hcount]
    omega
  · simp only [t, hstate]
    exact hvalid
  · simp only [t, hstate]
    exact hincident
  all_goals simp [t]

/-- While the incident lives, the rule waits until the last pass of its gap. -/
theorem exists_waiting_of_lives (hlives : Lives b h tenant lag r) (hdelay : Delay r lag ε)
    (henabled : r.enabled = true) (hsyslog : r.sourceType = "syslog") (hopened : Opened b h lag r t)
    (hwaiting : Waiting h.digest16 r lag due ε 0 0 t) (hk : k < r.gap lag) :
    ∃ jobs t', Run (Regular b h tenant lag r.id) t jobs t' ∧
      Waiting h.digest16 r lag due ε k k t' := by
  induction k with
  | zero => exact ⟨[], t, .nil t, hwaiting⟩
  | succ k ih =>
    obtain ⟨jobs, u, hrun, hu⟩ := ih (Nat.lt_of_succ_lt hk)
    obtain ⟨job, u', hstep, hu'⟩ := hu.cycle hdelay (Nat.le_add_right _ _)
      fun c v hstep => hlives t jobs u c v hopened hrun hstep
    obtain ⟨job', u'', hstep', hu''⟩ := hu'.pass hdelay b tenant hk henabled hsyslog
    exact ⟨jobs ++ [job, job'], u'', hrun.append (.cons hstep (.single hstep')), hu''⟩

/-- While the incident lives, the next cycles can all come before the next pass. -/
theorem exists_cycles_of_lives (hlives : Lives b h tenant lag r) (hdelay : Delay r lag ε)
    {t₀ : Clockwork} {jobs : List Job} (hopened : Opened b h lag r t₀)
    (hrun : Run (Regular b h tenant lag r.id) t₀ jobs t)
    (hwaiting : Waiting h.digest16 r lag due ε k k t) (hm : m ≤ ⌈lag⌉₊) :
    ∃ jobs' t', Run (Regular b h tenant lag r.id) t₀ jobs' t' ∧
      Waiting h.digest16 r lag due ε k (k + m) t' := by
  induction m with
  | zero => exact ⟨jobs, t, hrun, hwaiting⟩
  | succ m ih =>
    obtain ⟨jobs', u, hrun', hu⟩ := ih (Nat.le_of_succ_le hm)
    obtain ⟨job, u', hstep, hu'⟩ := hu.cycle hdelay (by omega)
      fun c v hstep => hlives t₀ jobs' u c v hopened hrun' hstep
    exact ⟨jobs' ++ [job], u', hrun'.append (.single hstep), hu'⟩

/-- **Long gaps.** A cycle comes before the pass in which the rule fires again. -/
theorem not_lives (hlag : 0 ≤ lag) (henabled : r.enabled = true) (hsyslog : r.sourceType = "syslog")
    (hgap : 10 < r.gap lag + 2 * lag) : ¬ Lives b h tenant lag r := by
  intro hlives
  obtain ⟨ε, hdelay⟩ := exists_delay hlag hgap
  obtain ⟨t₀, due, hopened, hwaiting⟩ := exists_waiting b h hdelay henabled hsyslog
  have hpos : 1 ≤ r.gap lag := by
    have hrest := one_le_restPasses r lag
    have hmin := r.minConsecutive_pos
    unfold AlertRule.gap
    omega
  obtain ⟨jobs, t, hrun, ht⟩ := exists_waiting_of_lives hlives hdelay henabled hsyslog hopened
    hwaiting (Nat.sub_lt hpos Nat.one_pos)
  obtain ⟨jobs', u, hrun', hu⟩ := exists_cycles_of_lives hlives hdelay hopened hrun ht le_rfl
  obtain ⟨i, hi, howns, hupdated⟩ := hu.incident
  have hlast : ((r.gap lag - 1 : ℕ) : ℚ) = r.gap lag - 1 := by
    rw [Nat.cast_sub hpos, Nat.cast_one]
  have hnext := hu.nextPass
  have hcycle := hu.nextCycle
  have hclock := hu.clock
  rw [Nat.cast_add, hlast] at hclock hcycle
  rw [hlast] at hnext
  obtain ⟨hnonneg, hle, hphase, hold, -⟩ := hdelay
  have hstep : Regular b h tenant lag r.id u (.cycle (idleCycle u.nextCycle (u.nextCycle + lag)))
      (u.afterCycle h tenant (idleCycle u.nextCycle (u.nextCycle + lag)) u.nextCycle) := by
    have hresolve : (idleCycle u.nextCycle (u.nextCycle + lag)).resolveAt = u.nextCycle + lag := rfl
    refine .cycle le_rfl le_rfl ?_ le_rfl ?_ ?_ <;> linarith
  have hlate : i.updatedAt < (idleCycle u.nextCycle (u.nextCycle + lag)).resolveAt - 10 := by
    rw [hupdated]
    simp only [idleCycle]
    linarith
  have halert : isAlertRule i.rule = true := howns.2.1 ▸ isAlertRule_incidentRule r
  obtain ⟨j, hj, hid, hresolved⟩ := exists_resolved h tenant _ u.tracker hu.valid hi halert howns.1
    hlate (by simp [idleCycle, Cycle.ofHosts]) rfl rfl
  have hlive := hlives t₀ jobs' u _ _ hopened hrun' hstep i hi howns j hj hid
  simp [Incident.live, hresolved] at hlive

/-! ### The law -/

/-- **How long the incident of an alert rule lives.** In regular passes and cycles no cycle resolves
the incident of a rule whose condition stays true, exactly if the rule cannot have an incident, or
if its gap, together with the lag of the pass that ends it and the lag of the cycle before that, is
at most ten minutes. -/
theorem lives_iff (b : Builtins) (h : Digests) (tenant : ℕ) (r : AlertRule) (hlag : 0 ≤ lag) :
    Lives b h tenant lag r ↔
      (r.enabled = true → r.sourceType = "syslog" → r.gap lag + 2 * lag ≤ 10) := by
  constructor
  · intro hlives henabled hsyslog
    by_contra hgap
    exact not_lives hlag henabled hsyslog (not_le.mp hgap) hlives
  · intro hgap
    by_cases henabled : r.enabled = true
    · exact lives_of_gap hlag (hgap henabled)
    · rintro t₀ jobs t c t' ⟨s, p, due, -, hopening, -⟩
      exact absurd (mem_of_mem_reached (hopening.holds r hopening.mem rfl).1).2 henabled

/-! ### Samples -/

/-- A rule about syslog messages with the default settings. -/
def logRule : AlertRule where
  id := 1
  name := "disk errors"
  enabled := true
  sourceType := "syslog"
  sourceId := none
  fieldPath := "message"
  operator := "contains"
  threshold := some "I/O error"
  severity := .warning
  cooldownMinutes := 5
  requiredConsecutive := 2
  lastTriggeredAt := none

/-- With the default settings and jobs that are at most a minute late, the rule fires at least every
seven minutes. -/
theorem lives_logRule : Lives plainBuiltins Hashing.sample.toDigests 1 1 logRule := by
  have hgap : logRule.gap 1 = 7 := by decide
  refine (lives_iff plainBuiltins Hashing.sample.toDigests 1 logRule (by norm_num)).mpr
    fun _ _ => ?_
  rw [hgap]
  norm_num

/-- With a cooldown of ten minutes it fires every eleven minutes, and its incident is resolved. -/
theorem not_lives_slowRule :
    ¬ Lives plainBuiltins Hashing.sample.toDigests 1 0 { logRule with cooldownMinutes := 10 } := by
  have hgap : AlertRule.gap { logRule with cooldownMinutes := 10 } 0 = 11 := by decide
  refine not_lives le_rfl rfl rfl ?_
  rw [hgap]
  norm_num

end Nodeglow.AlertRules
