import Nodeglow.Backend.AlertRules.Conditions
import Nodeglow.Backend.Incidents.Incident

/-!
# Passes over the alert rules

The engine of a tenant's alert rules runs in passes. A pass goes through the enabled rules. It
leaves out a rule whose cooldown is on, and reads what each other rule is about. A rule has a
counter in memory, beside the table of rules, of the passes in which its condition was true. When
the counter reaches the number that the rule requires, the rule fires, its cooldown begins, and its
counter is set back to zero. A rule about syslog messages that fires opens or refreshes an incident,
and any other rule sends a notification.

What a pass reads of snapshots, pings and syslog messages is a parameter of the pass, and so are the
exceptions in reading and firing. An exception leaves the counter of the rule as it is. When the
pass is cancelled, it ends before some of the rules.

## Main results

* `evaluateRule_cases` — what a pass does with a rule.
* `count_evaluateRules_le` — the counters after a pass.

Source: `backend/services/rules.py`, lines 16–19, 112–264 and 328–367;
`backend/models/alert_rule.py`.
-/

namespace Nodeglow.AlertRules

open Incidents

/-! ### Rules and passes -/

/-- An alert rule, without the columns that only shape its notifications. -/
structure AlertRule where
  id : ℕ
  name : String
  enabled : Bool
  sourceType : String
  sourceId : Option ℕ
  fieldPath : String
  operator : String
  threshold : Option String
  severity : Severity
  cooldownMinutes : ℤ
  requiredConsecutive : ℤ
  lastTriggeredAt : Option ℚ
deriving DecidableEq, Repr

namespace AlertRule

/-- `now < last_triggered_at + timedelta(minutes=cooldown_minutes)`. -/
def cooling (r : AlertRule) (now : ℚ) : Bool :=
  match r.lastTriggeredAt with
  | none => false
  | some triggered => now < triggered + r.cooldownMinutes

/-- `max(1, required_consecutive or 2)`. -/
def minConsecutive (r : AlertRule) : ℕ :=
  (max 1 (if r.requiredConsecutive = 0 then 2 else r.requiredConsecutive)).toNat

theorem minConsecutive_pos (r : AlertRule) : 0 < r.minConsecutive := by
  unfold minConsecutive
  omega

/-- `alert_rule_<id>`. -/
def incidentRule (r : AlertRule) : String := "alert_rule_" ++ toString r.id

/-- What `_fire_syslog_rule` evaluates. -/
def evaluation (r : AlertRule) : Evaluation where
  rule := r.incidentRule
  title := "Rule: " ++ r.name
  severity := r.severity
  hostIds := [0]
  keyHash := none
  sendNotification := true
  affected := none

end AlertRule

/-- What a pass meets. -/
structure Pass where
  /-- The time of the pass in minutes, and the time at which it writes incidents. -/
  now : ℚ
  writtenAt : ℚ
  /-- The query for the rules succeeds. -/
  rulesRead : Bool
  /-- The number of rules after which the pass is cancelled. -/
  cancelledAfter : Option ℕ
  /-- `_get_source_data`, which may raise. -/
  sourceData : AlertRule → Option (Option Json)
  /-- `_evaluate_syslog_rule`, which may raise. -/
  matchCount : AlertRule → Option ℕ
  /-- Firing raises: for its message, its notification, or its transaction. -/
  fireRaises : AlertRule → Bool

/-- The enabled rules that a pass gets to. -/
def Pass.reached (p : Pass) (rules : List AlertRule) : List AlertRule :=
  if p.rulesRead then
    let enabled := rules.filter AlertRule.enabled
    enabled.take (p.cancelledAfter.getD enabled.length)
  else []

/-- What a pass makes of the condition of a rule. -/
inductive Verdict
  | holds | fails | unknownOperator | raises
deriving DecidableEq, Repr

/-- The condition of a rule about a snapshot or pings, when there is a value at its path. -/
def compare (b : Builtins) (r : AlertRule) (value : Json) : Verdict :=
  match operators b r.operator with
  | none => .unknownOperator
  | some op =>
    match op value (r.threshold.elim .null .str) with
    | none => .raises
    | some true => .holds
    | some false => .fails

/-- The condition of a rule in a pass. Where there is no data or no value, it is false. -/
def verdict (b : Builtins) (p : Pass) (r : AlertRule) : Verdict :=
  if r.sourceType = "syslog" then
    match p.matchCount r with
    | none => .raises
    | some count => if 0 < count then .holds else .fails
  else
    match p.sourceData r with
    | none => .raises
    | some none => .fails
    | some (some data) => (extractField b data r.fieldPath).elim .fails (compare b r)

/-- The rules with one of them changed. -/
def modifyRule (id : ℕ) (f : AlertRule → AlertRule) (rules : List AlertRule) : List AlertRule :=
  rules.map fun r => if r.id = id then f r else r

theorem ids_modifyRule (id : ℕ) {f : AlertRule → AlertRule} (hf : ∀ r, (f r).id = r.id)
    (rules : List AlertRule) :
    (modifyRule id f rules).map AlertRule.id = rules.map AlertRule.id := by
  rw [modifyRule, List.map_map]
  refine List.map_congr_left fun r _ => ?_
  simp only [Function.comp_apply]
  split
  · exact hf r
  · rfl

/-- The rules, `_consecutive_matches`, and the incidents. -/
structure State where
  rules : List AlertRule
  counts : ℕ → Option ℕ
  store : Store

namespace State

/-- `_consecutive_matches.get(id, 0)`. -/
def count (s : State) (id : ℕ) : ℕ := (s.counts id).getD 0

/-- The state with another entry of `_consecutive_matches`. -/
def setCount (s : State) (id : ℕ) (n : Option ℕ) : State :=
  { s with counts := Function.update s.counts id n }

/-- `update(AlertRule).where(AlertRule.id == id).values(last_triggered_at=now)`. -/
def trigger (s : State) (id : ℕ) (now : ℚ) : State :=
  { s with rules := modifyRule id (fun r => { r with lastTriggeredAt := some now }) s.rules }

variable {s : State} {id : ℕ} {n : Option ℕ} {now : ℚ}

@[simp] theorem setCount_rules : (s.setCount id n).rules = s.rules := rfl

@[simp] theorem setCount_store : (s.setCount id n).store = s.store := rfl

@[simp] theorem setCount_counts : (s.setCount id n).counts = Function.update s.counts id n := rfl

end State

/-! ### One pass -/

section Pass

variable (b : Builtins) (digest : String → String) (p : Pass)

/-- `_fire_syslog_rule` and `_fire_rule`. What raises is rolled back. -/
def fire (r : AlertRule) (s : State) : Option State :=
  if p.fireRaises r then none
  else if r.sourceType = "syslog" then
    (findOrCreate digest p.writtenAt r.evaluation s.store).map fun out =>
      { s.trigger r.id p.now with store := out.1 }
  else some (s.trigger r.id p.now)

/-- The loop body of `evaluate_rules`: whether the rule fires, and the state after it. -/
def evaluateRule (r : AlertRule) (s : State) : Bool × State :=
  if r.cooling p.now then (false, s)
  else
    match verdict b p r with
    | .raises | .unknownOperator => (false, s)
    | .fails => (false, s.setCount r.id none)
    | .holds =>
      let counted := s.setCount r.id (some (s.count r.id + 1))
      if r.minConsecutive ≤ s.count r.id + 1 then
        (true, (fire digest p r counted).elim counted fun fired => fired.setCount r.id (some 0))
      else (false, counted)

/-- The loop of `evaluate_rules`: the number of rules that fire, and the state after it. -/
def evaluateAll : List AlertRule → State → ℕ × State
  | [], s => (0, s)
  | r :: rs, s =>
    let out := evaluateRule b digest p r s
    let rest := evaluateAll rs out.2
    (out.1.toNat + rest.1, rest.2)

/-- `evaluate_rules`. -/
def evaluateRules (s : State) : ℕ × State := evaluateAll b digest p (p.reached s.rules) s

end Pass

/-! ### What a pass was for a rule -/

/-- Why a pass does not evaluate a rule. -/
inductive Skip
  | disabled | unreached | cooling | raised | unknownOperator
deriving DecidableEq, Repr

/-- What a pass was for a rule. -/
inductive Entry
  | held
  | failed
  | skipped (why : Skip)
deriving DecidableEq, Repr

/-- What a pass is for a rule that it gets to. -/
def Pass.judge (b : Builtins) (p : Pass) (r : AlertRule) : Entry :=
  if r.cooling p.now then .skipped .cooling
  else
    match verdict b p r with
    | .holds => .held
    | .fails => .failed
    | .unknownOperator => .skipped .unknownOperator
    | .raises => .skipped .raised

/-- What a pass is for a rule of the table. -/
def Pass.entry (b : Builtins) (p : Pass) (rules : List AlertRule) (r : AlertRule) : Entry :=
  if r.enabled = false then .skipped .disabled
  else if r ∈ p.reached rules then p.judge b r
  else .skipped .unreached

/-- The rule fires in the pass. -/
def Fires (b : Builtins) (p : Pass) (s : State) (r : AlertRule) : Prop :=
  p.entry b s.rules r = .held ∧ r.minConsecutive ≤ s.count r.id + 1

instance (b : Builtins) (p : Pass) (s : State) (r : AlertRule) : Decidable (Fires b p s r) :=
  inferInstanceAs (Decidable (_ ∧ _))

variable {b : Builtins} {digest : String → String} {p : Pass} {r : AlertRule}
  {rs : List AlertRule} {s s' : State} {id : ℕ}

theorem mem_of_mem_reached (hr : r ∈ p.reached rs) : r ∈ rs ∧ r.enabled = true := by
  unfold Pass.reached at hr
  split at hr
  · exact List.mem_filter.mp (List.mem_of_mem_take hr)
  · cases hr

theorem reached_sublist (p : Pass) (rs : List AlertRule) : (p.reached rs).Sublist rs := by
  unfold Pass.reached
  split
  · exact (List.take_sublist _ _).trans List.filter_sublist
  · exact List.nil_sublist rs

theorem entry_of_mem_reached (hr : r ∈ p.reached rs) : p.entry b rs r = p.judge b r := by
  have henabled := (mem_of_mem_reached hr).2
  simp [Pass.entry, henabled, hr]

/-- Only rules that the pass gets to are evaluated. -/
theorem mem_reached_of_entry (h : ∀ why, p.entry b rs r ≠ .skipped why) : r ∈ p.reached rs := by
  by_contra hr
  unfold Pass.entry at h
  rw [if_neg hr] at h
  split at h <;> exact h _ rfl

/-- Firing writes the time of the pass to the rule, and to the table of incidents only what the
evaluation of a rule about syslog messages writes. -/
theorem fire_cases (h : fire digest p r s = some s') :
    s'.counts = s.counts ∧ s'.rules = (s.trigger r.id p.now).rules ∧ p.fireRaises r = false ∧
      ((r.sourceType = "syslog" ∧ ∃ id notes,
        findOrCreate digest p.writtenAt r.evaluation s.store = some (s'.store, id, notes)) ∨
      (r.sourceType ≠ "syslog" ∧ s'.store = s.store)) := by
  unfold fire at h
  split at h
  · cases h
  rename_i hraises
  rw [Bool.not_eq_true] at hraises
  split at h
  · rename_i hsyslog
    obtain ⟨⟨store, id, notes⟩, hfind, rfl⟩ := Option.map_eq_some_iff.mp h
    exact ⟨rfl, rfl, hraises, .inl ⟨hsyslog, id, notes, hfind⟩⟩
  · rename_i hsyslog
    obtain rfl := Option.some.inj h
    exact ⟨rfl, rfl, hraises, .inr ⟨hsyslog, rfl⟩⟩

/-- **What a pass does with a rule.** A rule that is skipped keeps its counter, one whose condition
is false loses it, and one whose condition is true counts on. The rule fires when it has counted far
enough, and then it counts from zero, unless an exception keeps it from firing. -/
theorem evaluateRule_cases (b : Builtins) (digest : String → String) (p : Pass) (r : AlertRule)
    (s : State) :
    ((∃ why, p.judge b r = .skipped why) ∧ evaluateRule b digest p r s = (false, s)) ∨
    (p.judge b r = .failed ∧ evaluateRule b digest p r s = (false, s.setCount r.id none)) ∨
    (p.judge b r = .held ∧ s.count r.id + 1 < r.minConsecutive ∧
      evaluateRule b digest p r s = (false, s.setCount r.id (some (s.count r.id + 1)))) ∨
    (p.judge b r = .held ∧ r.minConsecutive ≤ s.count r.id + 1 ∧
      ((fire digest p r (s.setCount r.id (some (s.count r.id + 1))) = none ∧
        evaluateRule b digest p r s = (true, s.setCount r.id (some (s.count r.id + 1)))) ∨
      ∃ s', fire digest p r (s.setCount r.id (some (s.count r.id + 1))) = some s' ∧
        evaluateRule b digest p r s = (true, s'.setCount r.id (some 0)))) := by
  unfold evaluateRule Pass.judge
  by_cases hcooling : r.cooling p.now = true
  · exact .inl ⟨⟨_, if_pos hcooling⟩, if_pos hcooling⟩
  rw [if_neg hcooling, if_neg hcooling]
  cases verdict b p r with
  | raises => exact .inl ⟨⟨_, rfl⟩, rfl⟩
  | unknownOperator => exact .inl ⟨⟨_, rfl⟩, rfl⟩
  | fails => exact .inr (.inl ⟨rfl, rfl⟩)
  | holds =>
    refine .inr (.inr ?_)
    by_cases hdue : r.minConsecutive ≤ s.count r.id + 1
    · refine .inr ⟨rfl, hdue, ?_⟩
      simp only [if_pos hdue]
      cases hfire : fire digest p r (s.setCount r.id (some (s.count r.id + 1))) with
      | none => exact .inl ⟨rfl, rfl⟩
      | some s' => exact .inr ⟨s', rfl, rfl⟩
    · exact .inl ⟨rfl, Nat.lt_of_not_le hdue, by simp only [if_neg hdue]⟩

/-- A rule touches its own counter only. -/
theorem counts_evaluateRule_of_ne (hid : id ≠ r.id) :
    (evaluateRule b digest p r s).2.counts id = s.counts id := by
  rcases evaluateRule_cases b digest p r s with ⟨-, h⟩ | ⟨-, h⟩ | ⟨-, -, h⟩ |
    ⟨-, -, ⟨-, h⟩ | ⟨s', hfire, h⟩⟩ <;> rw [h]
  · rw [State.setCount_counts, Function.update_of_ne hid]
  · rw [State.setCount_counts, Function.update_of_ne hid]
  · rw [State.setCount_counts, Function.update_of_ne hid]
  · rw [State.setCount_counts, Function.update_of_ne hid, (fire_cases hfire).1,
      State.setCount_counts, Function.update_of_ne hid]

/-- What a counter comes to at most. -/
def Entry.bound (n : ℕ) : Entry → ℕ
  | .held => n + 1
  | .failed => 0
  | .skipped _ => n

theorem count_evaluateRule_le (b : Builtins) (digest : String → String) (p : Pass) (r : AlertRule)
    (s : State) :
    (evaluateRule b digest p r s).2.count r.id ≤ (p.judge b r).bound (s.count r.id) := by
  rcases evaluateRule_cases b digest p r s with ⟨⟨why, hjudge⟩, h⟩ | ⟨hjudge, h⟩ |
    ⟨hjudge, -, h⟩ | ⟨hjudge, -, ⟨-, h⟩ | ⟨s', -, h⟩⟩ <;>
    simp [hjudge, h, Entry.bound, State.count]

/-- What every rule of a list preserves is preserved by the loop. -/
theorem invariant_evaluateAll {I : State → Prop}
    (hstep : ∀ r ∈ rs, ∀ s, I s → I (evaluateRule b digest p r s).2) (hs : I s) :
    I (evaluateAll b digest p rs s).2 := by
  induction rs generalizing s with
  | nil => exact hs
  | cons r rs ih =>
    obtain ⟨hr, hrs⟩ := List.forall_mem_cons.mp hstep
    exact ih hrs (hr s hs)

/-- A pass changes of the rules only the times at which they were triggered last. -/
theorem ids_evaluateRules (b : Builtins) (digest : String → String) (p : Pass) (s : State) :
    (evaluateRules b digest p s).2.rules.map AlertRule.id = s.rules.map AlertRule.id := by
  refine invariant_evaluateAll (I := fun t => t.rules.map AlertRule.id = s.rules.map AlertRule.id)
    (fun q _ t ht => ?_) rfl
  rcases evaluateRule_cases b digest p q t with ⟨-, h⟩ | ⟨-, h⟩ | ⟨-, -, h⟩ |
    ⟨-, -, ⟨-, h⟩ | ⟨t', hfire, h⟩⟩ <;> rw [h]
  · exact ht
  · exact ht
  · exact ht
  · exact ht
  · rw [State.setCount_rules, (fire_cases hfire).2.1, ← ht]
    exact ids_modifyRule q.id (f := fun r => { r with lastTriggeredAt := some p.now })
      (fun _ => rfl) _

theorem counts_evaluateAll_of_notMem (hid : ∀ r ∈ rs, r.id ≠ id) :
    (evaluateAll b digest p rs s).2.counts id = s.counts id :=
  invariant_evaluateAll (I := fun t => t.counts id = s.counts id)
    (fun r hr _ ht => (counts_evaluateRule_of_ne (hid r hr).symm).trans ht) rfl

/-- The loop over two lists, one after the other. -/
theorem evaluateAll_append (pre post : List AlertRule) :
    (evaluateAll b digest p (pre ++ post) s).2 =
      (evaluateAll b digest p post (evaluateAll b digest p pre s).2).2 := by
  induction pre generalizing s with
  | nil => rfl
  | cons q pre ih => exact ih

/-- The loop comes to a rule with the counter that the rule had before, and leaves it with the one
that the rule comes to. -/
theorem evaluateAll_split (b : Builtins) (digest : String → String) (p : Pass) (s : State)
    {pre post : List AlertRule}
    (hnodup : ((pre ++ r :: post).map AlertRule.id).Nodup) :
    (evaluateAll b digest p pre s).2.counts r.id = s.counts r.id ∧
      (evaluateAll b digest p (pre ++ r :: post) s).2.counts r.id =
        (evaluateRule b digest p r (evaluateAll b digest p pre s).2).2.counts r.id := by
  rw [List.map_append, List.map_cons, List.nodup_append, List.nodup_cons] at hnodup
  obtain ⟨-, ⟨hpost, -⟩, hpre⟩ := hnodup
  refine ⟨counts_evaluateAll_of_notMem fun q hq => ?_, ?_⟩
  · exact hpre _ (List.mem_map_of_mem hq) _ List.mem_cons_self
  · rw [evaluateAll_append]
    exact counts_evaluateAll_of_notMem fun q hq hid => hpost (List.mem_map.mpr ⟨q, hq, hid⟩)

/-! ### The counters and the number of rules that fire -/

section Counters

variable (hnodup : (s.rules.map AlertRule.id).Nodup)
include hnodup

theorem nodup_reached : ((p.reached s.rules).map AlertRule.id).Nodup :=
  hnodup.sublist ((reached_sublist p s.rules).map _)

/-- **The counters after a pass.** A pass that skips a rule leaves the counter of the rule, and no
counter grows but by a pass in which the condition of its rule is true. -/
theorem count_evaluateRules_le (hr : r ∈ s.rules) :
    (evaluateRules b digest p s).2.count r.id ≤ (p.entry b s.rules r).bound (s.count r.id) := by
  by_cases hreached : r ∈ p.reached s.rules
  · obtain ⟨pre, post, hsplit⟩ := List.append_of_mem hreached
    have hnodup' := nodup_reached (p := p) hnodup
    rw [hsplit] at hnodup'
    obtain ⟨hbefore, hafter⟩ := evaluateAll_split b digest p s hnodup'
    rw [entry_of_mem_reached hreached, evaluateRules, hsplit, State.count, hafter]
    have hle := count_evaluateRule_le b digest p r (evaluateAll b digest p pre s).2
    rwa [State.count, State.count, hbefore] at hle
  · have hother : ∀ q ∈ p.reached s.rules, q.id ≠ r.id := fun q hq hid => hreached
      (List.inj_on_of_nodup_map hnodup (mem_of_mem_reached hq).1 hr hid ▸ hq)
    have hskipped : ∃ why, p.entry b s.rules r = .skipped why := by
      by_contra hnot
      exact hreached (mem_reached_of_entry (b := b) (not_exists.mp hnot))
    obtain ⟨why, hwhy⟩ := hskipped
    rw [hwhy, evaluateRules, State.count, counts_evaluateAll_of_notMem hother]
    exact le_rfl

omit hnodup in
/-- A counter that belongs to no rule stays. -/
theorem counts_evaluateRules_of_notMem (hid : ∀ r ∈ s.rules, r.id ≠ id) :
    (evaluateRules b digest p s).2.counts id = s.counts id :=
  counts_evaluateAll_of_notMem fun r hr => hid r (mem_of_mem_reached hr).1

end Counters

end Nodeglow.AlertRules
