import Nodeglow.Backend.AlertRules.Evaluation
import Nodeglow.Foundation.Run
import Nodeglow.Foundation.Streak

/-!
# Consecutive matches

An alert rule is to fire only after its condition was true in as many passes in a row as the rule
requires. The counters that are kept for this are reset where the condition is false and where there
is no data. They are not reset where a pass leaves the rule out: because it is disabled, because
reading its data raises, because its operator is unknown, because its cooldown is on, or because the
pass ends before it. A counter that is positive then bridges the gap.

The history of a rule is what every pass was for it, the latest first. For any kinds of gaps, a rule
fires only after a row of matches that no such gap interrupts, in every run in which no rule with a
positive counter meets such a gap.

## Main results

* `count_le_streak` — a counter is at most the row of matches at the end of the history.
* `fires_consecutively` — the law of the consecutive matches.

Source: `backend/services/rules.py`, lines 19–21 and 114–185; `backend/routers/rules.py`, lines
78–199.
-/

namespace Nodeglow.AlertRules

open Incidents

/-! ### Histories -/

/-- The state, the number that the next rule gets, and what every pass was for every rule. -/
structure World where
  state : State
  next : ℕ
  past : ℕ → List Entry

/-- What happens to the rules. -/
inductive Event
  | evaluated (p : Pass)
  | added (form : AlertRule)
  | edited (id : ℕ) (form : AlertRule)
  | toggled (id : ℕ)
  | deleted (id : ℕ)
  | restarted

/-- `edit_rule`, with the values that it writes. -/
def AlertRule.edit (form r : AlertRule) : AlertRule :=
  { form with id := r.id, enabled := r.enabled, lastTriggeredAt := r.lastTriggeredAt }

/-- `toggle_rule`. -/
def AlertRule.toggle (r : AlertRule) : AlertRule := { r with enabled := !r.enabled }

/-- `add_rule`. -/
def AlertRule.create (form : AlertRule) (id : ℕ) : AlertRule :=
  { form with id := id, enabled := true, lastTriggeredAt := none }

/-- The histories after a pass. -/
def record (b : Builtins) (p : Pass) (rules : List AlertRule) (past : ℕ → List Entry) (id : ℕ) :
    List Entry :=
  match rules.find? fun r => r.id = id with
  | some r => p.entry b rules r :: past id
  | none => past id

/-- What an event does. -/
def World.step (b : Builtins) (digest : String → String) (w : World) : Event → World
  | .evaluated p =>
    { w with
      state := (evaluateRules b digest p w.state).2
      past := record b p w.state.rules w.past }
  | .added form =>
    { w with
      state := { w.state with rules := w.state.rules ++ [form.create w.next] }
      next := w.next + 1 }
  | .edited id form =>
    { w with state := { w.state with rules := modifyRule id form.edit w.state.rules } }
  | .toggled id =>
    { w with state := { w.state with rules := modifyRule id AlertRule.toggle w.state.rules } }
  | .deleted id =>
    { w with state := { w.state with rules := w.state.rules.filter fun r => r.id ≠ id } }
  | .restarted => { w with state := { w.state with counts := fun _ => none } }

/-- The steps of the rules and their histories. -/
def Step (b : Builtins) (digest : String → String) (w : World) (e : Event) (w' : World) : Prop :=
  w' = w.step b digest e

/-- A process that has started: it has counted nothing, and nothing has been recorded. -/
structure World.Started (w : World) : Prop where
  counts : ∀ id, w.state.counts id = none
  past : ∀ id, w.past id = []
  ids : (w.state.rules.map AlertRule.id).Nodup
  lt : ∀ r ∈ w.state.rules, r.id < w.next

/-- The entries of a history without the gaps that do not count. -/
def relevant (counts : Skip → Bool) (past : List Entry) : List Entry :=
  past.filter fun
    | .skipped why => counts why
    | _ => true

/-- The latest `n` entries are matches, where gaps that do not count are left out. -/
def Consecutive (counts : Skip → Bool) (n : ℕ) (past : List Entry) : Prop :=
  n ≤ (relevant counts past).length ∧ ∀ e ∈ (relevant counts past).take n, e = .held

instance (counts : Skip → Bool) (n : ℕ) (past : List Entry) :
    Decidable (Consecutive counts n past) := inferInstanceAs (Decidable (_ ∧ _))

/-- No rule with a positive counter meets a gap that counts. -/
def Uninterrupted (b : Builtins) (counts : Skip → Bool) (w : World) : Event → Prop
  | .evaluated p => ∀ r ∈ w.state.rules, 0 < w.state.count r.id →
      ∀ why, p.entry b w.state.rules r = .skipped why → counts why = false
  | _ => True

variable {b : Builtins} {digest : String → String} {counts : Skip → Bool} {p : Pass} {w w' : World}
  {e : Event} {r : AlertRule} {past : List Entry} {n id : ℕ}

/-- The row of matches at the end of a history. -/
def matchStreak (counts : Skip → Bool) (past : List Entry) : ℕ :=
  streak (fun e => e = .held) (relevant counts past)

theorem consecutive_iff : Consecutive counts n past ↔ n ≤ matchStreak counts past := by
  rw [matchStreak, le_streak_iff]
  simp only [decide_eq_true_iff, Consecutive]

/-- One more entry. -/
theorem bound_le_matchStreak {entry : Entry} (hn : n ≤ matchStreak counts past)
    (hgap : 0 < n → ∀ why, entry = .skipped why → counts why = false) :
    entry.bound n ≤ matchStreak counts (entry :: past) := by
  cases entry with
  | held =>
    have hcons : matchStreak counts (.held :: past) = matchStreak counts past + 1 := by
      simp [matchStreak, relevant, streak_cons]
    rw [hcons]
    exact Nat.succ_le_succ hn
  | failed => exact Nat.zero_le _
  | skipped why =>
    rcases Nat.eq_zero_or_pos n with rfl | hpos
    · exact Nat.zero_le _
    · have hcons : matchStreak counts (.skipped why :: past) = matchStreak counts past := by
        simp [matchStreak, relevant, hgap hpos why rfl]
      rw [hcons]
      exact hn

/-! ### The invariant -/

/-- The ids are numbers of the sequence, and no counter exceeds the row of matches. -/
structure World.Counted (counts : Skip → Bool) (w : World) : Prop where
  ids : (w.state.rules.map AlertRule.id).Nodup
  lt : ∀ r ∈ w.state.rules, r.id < w.next
  le : ∀ id, w.state.count id ≤ matchStreak counts (w.past id)

theorem World.Started.counted (h : w.Started) (counts : Skip → Bool) : w.Counted counts where
  ids := h.ids
  lt := h.lt
  le id := by simp [State.count, h.counts]

theorem lt_of_ids {rules rules' : List AlertRule} {next : ℕ}
    (hids : rules'.map AlertRule.id = rules.map AlertRule.id) (hlt : ∀ r ∈ rules, r.id < next) :
    ∀ r ∈ rules', r.id < next := by
  intro r hr
  have hmem : r.id ∈ rules.map AlertRule.id := hids ▸ List.mem_map_of_mem hr
  obtain ⟨q, hq, hid⟩ := List.mem_map.mp hmem
  exact hid ▸ hlt q hq

/-- Every event keeps the counters below the rows of matches, if no positive counter meets a gap
that counts. -/
theorem World.Counted.step (h : w.Counted counts) (hgap : Uninterrupted b counts w e) :
    (w.step b digest e).Counted counts := by
  cases e with
  | evaluated p =>
    have hids := ids_evaluateRules b digest p w.state
    refine ⟨hids ▸ h.ids, lt_of_ids hids h.lt, fun id => ?_⟩
    simp only [World.step, record]
    cases hfind : w.state.rules.find? fun r => r.id = id with
    | some r =>
      have hr := List.mem_of_find?_eq_some hfind
      obtain rfl : r.id = id := by simpa using List.find?_some hfind
      exact (count_evaluateRules_le h.ids hr).trans
        (bound_le_matchStreak (h.le r.id) (hgap r hr))
    | none =>
      have hnone : ∀ r ∈ w.state.rules, r.id ≠ id := by simpa using hfind
      rw [State.count, counts_evaluateRules_of_notMem hnone]
      exact h.le id
  | added form =>
    refine ⟨?_, fun r hr => ?_, h.le⟩
    · simp only [World.step, List.map_append, List.map_singleton]
      refine List.nodup_append.mpr ⟨h.ids, by simp, fun x hx y hy => ?_⟩
      obtain ⟨q, hq, rfl⟩ := List.mem_map.mp hx
      rw [List.mem_singleton.mp hy]
      exact (h.lt q hq).ne
    · rcases List.mem_append.mp hr with hr | hr
      · exact Nat.lt_succ_of_lt (h.lt r hr)
      · rw [List.mem_singleton.mp hr]
        exact Nat.lt_succ_self _
  | edited id form =>
    have hids := ids_modifyRule id (f := form.edit) (fun _ => rfl) w.state.rules
    exact ⟨hids ▸ h.ids, lt_of_ids hids h.lt, h.le⟩
  | toggled id =>
    have hids := ids_modifyRule id (f := AlertRule.toggle) (fun _ => rfl) w.state.rules
    exact ⟨hids ▸ h.ids, lt_of_ids hids h.lt, h.le⟩
  | deleted id =>
    exact ⟨h.ids.sublist (List.filter_sublist.map _),
      fun r hr => h.lt r (List.mem_filter.mp hr).1, h.le⟩
  | restarted => exact ⟨h.ids, h.lt, fun id => Nat.zero_le _⟩

/-- **A counter is at most the row of matches** at the end of the history of its rule. -/
theorem count_le_streak {w₀ : World} (hstart : w₀.Started) {l : List Event}
    (hrun : Run (Guarded (Uninterrupted b counts) (Step b digest)) w₀ l w) :
    w.Counted counts :=
  hrun.invariant (I := World.Counted counts)
    (fun w e w' hcounted hstep => by
      obtain ⟨hgap, rfl⟩ := hstep
      exact hcounted.step hgap) (hstart.counted counts)

/-! ### The law -/

/-- **A rule fires only after consecutive matches.** In every run in which no rule with a positive
counter meets a gap of the kinds that count, a rule fires in a pass only if its condition was true
in this pass and, without such a gap, in as many passes before as it requires. -/
theorem fires_consecutively {w₀ : World} (hstart : w₀.Started) {l : List Event}
    (hrun : Run (Guarded (Uninterrupted b counts) (Step b digest)) w₀ l w)
    (hfires : Fires b p w.state r) :
    Consecutive counts r.minConsecutive (p.entry b w.state.rules r :: w.past r.id) := by
  obtain ⟨hheld, hdue⟩ := hfires
  rw [consecutive_iff, hheld]
  have hle : Entry.held.bound (w.state.count r.id) ≤ matchStreak counts (.held :: w.past r.id) :=
    bound_le_matchStreak ((count_le_streak hstart hrun).le r.id)
      (fun _ _ hskip => Entry.noConfusion hskip)
  exact hdue.trans hle

/-! ### Samples -/

/-- A rule that fires when a host was down in two passes in a row. -/
def downRule : AlertRule where
  id := 1
  name := "gateway down"
  enabled := true
  sourceType := "ping"
  sourceId := some 7
  fieldPath := "success"
  operator := "is_false"
  threshold := none
  severity := .critical
  cooldownMinutes := 5
  requiredConsecutive := 2
  lastTriggeredAt := none

/-- A process that has started with this rule. -/
def startedWorld : World where
  state := { rules := [downRule], counts := fun _ => none, store := .empty 1 }
  next := 2
  past _ := []

theorem started_startedWorld : startedWorld.Started where
  counts _ := rfl
  past _ := rfl
  ids := by decide
  lt := by decide

/-- A pass with what it reads of the host, which is missing when the query raises. -/
def hostPass (now : ℚ) (success : Option Bool) : Pass where
  now := now
  writtenAt := now
  rulesRead := true
  cancelledAfter := none
  sourceData _ := success.map fun success => some (.obj [("success", .bool success)])
  matchCount _ := none
  fireRaises _ := false

/-- After a pass in which the host was down. -/
def downWorld : World :=
  startedWorld.step plainBuiltins (fun s => s) (.evaluated (hostPass 0 (some false)))

/-- In the next pass the host is still down, and the rule fires after two matches in a row. -/
theorem fires_consecutively_downWorld :
    Consecutive (fun _ => true) 2
      ((hostPass 1 (some false)).entry plainBuiltins downWorld.state.rules downRule ::
        downWorld.past 1) := by
  have hgap : Uninterrupted plainBuiltins (fun _ => true) startedWorld
      (.evaluated (hostPass 0 (some false))) := by
    intro r _ hpos
    simp [startedWorld, State.count] at hpos
  have hfires : Fires plainBuiltins (hostPass 1 (some false)) downWorld.state downRule := by
    decide +kernel
  exact fires_consecutively started_startedWorld (.single ⟨hgap, rfl⟩) hfires

/-- A host is down, then a pass cannot read it, and then it is down: the rule fires. -/
theorem not_consecutive_afterError :
    ∃ w, Run (Step plainBuiltins fun s => s) startedWorld
        [.evaluated (hostPass 0 (some false)), .evaluated (hostPass 1 none)] w ∧
      Fires plainBuiltins (hostPass 2 (some false)) w.state downRule ∧
      ¬ Consecutive (fun why => why ≠ .cooling) downRule.minConsecutive
        ((hostPass 2 (some false)).entry plainBuiltins w.state.rules downRule :: w.past 1) :=
  ⟨_, .cons rfl (.cons rfl (.nil _)), by decide +kernel, by decide +kernel⟩

end Nodeglow.AlertRules
