import Nodeglow.Backend.Incidents.IntegrationAlerts
import Nodeglow.Foundation.Run

/-!
# Escalations

An evaluation carries a severity, but only the one that opens an incident leaves it there: the key
of an incident has no severity in it, and extending writes the hosts and the time. As long as no
evaluation is more severe than the open incident it extends, every open incident is at least as
severe as its latest evaluation. The first one that is more severe is swallowed: the incident keeps
its severity, and nobody is told.

## Main results

* `evaluate_cases` — what an evaluation does, whoever asks for it.
* `faithful_iff` — which step keeps every open incident as severe as its latest evaluation.
* `escalation_law` — runs.

Source: `backend/services/correlation.py`, lines 140–222; `backend/services/integration_alerts.py`,
lines 204–275; `backend/integrations/nut.py`, lines 176–203.
-/

namespace Nodeglow.Incidents

/-- The table, the notifications that are sent or queued, and the severity of the latest evaluation
of each incident, which the program does not keep. -/
structure Desk where
  session : Session
  latest : ℕ → Severity

/-- An evaluation of a correlation rule, which sends notifications, or of an integration alert,
which queues them; and what resolves and acknowledges incidents. -/
inductive Act
  | report (now : ℚ) (e : Evaluation)
  | alert (now : ℚ) (rule title : String) (severity : Severity) (key : String) (hostIds : List ℕ)
      (hkey : key ≠ "")
  | resolved (now : ℚ) (id : ℕ)
  | acknowledged (now : ℚ) (id : ℕ)

/-- The evaluation of an act. -/
def Act.evaluation : Act → Option Evaluation
  | .report _ e => some { e with sendNotification := true }
  | .alert _ rule title severity key hostIds _ =>
    some ⟨rule, title, severity, [], some key, false, some hostIds⟩
  | _ => none

section Desk

variable (h : Digests)

/-- The session after an act. -/
def Act.session (t : Session) : Act → Option Session
  | .report now e =>
    (findOrCreate h.digest16 now { e with sendNotification := true } t.store).map
      fun (store, _, notes) => { store := store, queued := t.queued ++ notes }
  | .alert now rule title severity key hostIds _ =>
    openOrExtend h now rule title severity key hostIds t
  | .resolved now id => some { t with store := t.store.modify id (Incident.resolve now) }
  | .acknowledged now id => some { t with store := t.store.modify id (Incident.acknowledge now) }

/-- The severities of the latest evaluations after an act: the incident with the rule and the key
has a new one. -/
def Act.latest (a : Act) (v : Desk) (t : Session) (id : ℕ) : Severity :=
  match a.evaluation with
  | none => v.latest id
  | some e =>
    if ∃ i ∈ t.store.rows, i.id = id ∧ i.Has e.rule (e.hash h.digest16) then e.severity
    else v.latest id

/-- The desk after an act. -/
def Act.apply (v : Desk) (a : Act) : Option Desk :=
  (a.session h v.session).map fun t => { session := t, latest := a.latest h v t }

/-- Every open incident is at least as severe as its latest evaluation. -/
def Faithful (v : Desk) : Prop :=
  ∀ i ∈ v.session.store.rows, i.live = true → v.latest i.id ≤ i.severity

/-- The evaluation is not more severe than the open incident it extends. -/
def Calm (v : Desk) (a : Act) : Prop :=
  ∀ e, a.evaluation = some e → ∀ i ∈ v.session.store.rows,
    i.Has e.rule (e.hash h.digest16) → e.severity ≤ i.severity

/-- The evaluation raises an open incident from a warning to critical. -/
def Escalates (v : Desk) (a : Act) (id : ℕ) : Prop :=
  ∃ e, a.evaluation = some e ∧ e.severity = .critical ∧
    ∃ i ∈ v.session.store.rows, i.id = id ∧ i.Has e.rule (e.hash h.digest16) ∧
      i.severity = .warning

/-- There is a new notification about the incident that calls it critical. -/
def Notified (v v' : Desk) (id : ℕ) : Prop :=
  ∃ notes, v'.session.queued = v.session.queued ++ notes ∧
    ∃ n ∈ notes, n.incidentId = id ∧ n.severity = .critical

end Desk

section Laws

variable {h : Digests} {v v' : Desk} {a : Act} {t : Session} {e : Evaluation}

/-- **What an evaluation does**, whether it is of a rule or of an alert: it extends the open
incident of its rule and key and tells nobody, or it opens one, with its severity. -/
theorem evaluate_cases (ht : a.session h v.session = some t) (he : a.evaluation = some e) :
    (∃ now, ∃ i ∈ v.session.store.rows, i.Has e.rule (e.hash h.digest16) ∧
      t.store = v.session.store.modify i.id (Incident.extend now e) ∧
      t.queued = v.session.queued) ∨
    ((∀ i ∈ v.session.store.rows, ¬ i.Has e.rule (e.hash h.digest16)) ∧ ∃ now,
      t.store =
        { rows := v.session.store.rows ++ [e.incident h.digest16 now v.session.store.next]
          next := v.session.store.next + 1 }) := by
  cases a with
  | report now e' =>
    obtain rfl := Option.some.inj he
    obtain ⟨⟨store, id, notes⟩, hs, rfl⟩ := Option.map_eq_some_iff.mp ht
    rcases findOrCreate_cases hs with ⟨i, hi, hhas, -, rfl, rfl⟩ | ⟨hnone, -, rfl, -⟩
    · exact .inl ⟨now, i, hi, hhas, rfl, by simp⟩
    · exact .inr ⟨hnone, now, rfl⟩
  | alert now rule title severity key hostIds hkey =>
    obtain rfl := Option.some.inj he
    obtain ⟨⟨store, id, notes⟩, hs, rfl⟩ := Option.map_eq_some_iff.mp ht
    have hhash : Evaluation.hash h.digest16
        ⟨rule, title, severity, [], some key, false, some hostIds⟩ = key := if_neg hkey
    rcases findOrCreate_cases hs with ⟨i, hi, hhas, -, rfl, -⟩ | ⟨hnone, -, rfl, -⟩
    · refine .inl ⟨now, i, hi, hhas, rfl, if_pos ?_⟩
      rw [hhash] at hhas
      exact List.ne_nil_of_mem (List.mem_filter.mpr ⟨hi, decide_eq_true hhas⟩)
    · exact .inr ⟨hnone, now, rfl⟩
  | resolved now id => cases he
  | acknowledged now id => cases he

/-- Acts keep the table valid. -/
theorem valid_apply_act (hvalid : v.session.store.Valid) (hv : a.apply h v = some v') :
    v'.session.store.Valid := by
  obtain ⟨t, ht, rfl⟩ := Option.map_eq_some_iff.mp hv
  cases a with
  | report now e | alert now rule title severity key hostIds hkey =>
    obtain ⟨r, hs, rfl⟩ := Option.map_eq_some_iff.mp ht
    exact hvalid.findOrCreate hs
  | resolved now id =>
    obtain rfl := Option.some.inj ht
    exact hvalid.modify (keeps_resolve now)
  | acknowledged now id =>
    obtain rfl := Option.some.inj ht
    exact hvalid.modify (keeps_acknowledge now)

/-- What users do changes no severity, and opens nothing. -/
theorem faithful_of_modify {f : Incident → Incident} {id : ℕ} (hf : Keeps f)
    (hseverity : ∀ i, (f i).severity = i.severity) (hfaithful : Faithful v) :
    Faithful { v with session := { v.session with store := v.session.store.modify id f } } := by
  intro j hj hlive
  rcases Store.mem_modify.mp hj with ⟨i, hi, -, rfl⟩ | ⟨hj, -⟩
  · rw [hf.id, hseverity]
    exact hfaithful i hi (hf.live i hlive)
  · exact hfaithful j hj hlive

/-- **Which act keeps open incidents as severe as their latest evaluations**: one that is not more
severe than the incident it extends. -/
theorem faithful_iff (hvalid : v.session.store.Valid) (hfaithful : Faithful v)
    (hv : a.apply h v = some v') : Faithful v' ↔ Calm h v a := by
  obtain ⟨t, ht, rfl⟩ := Option.map_eq_some_iff.mp hv
  cases he : a.evaluation with
  | none =>
    have hlatest : a.latest h v t = v.latest := by
      funext id
      simp [Act.latest, he]
    refine iff_of_true ?_ (by simp [Calm, he])
    rw [hlatest]
    cases a with
    | report now e => cases he
    | alert now rule title severity key hostIds hkey => cases he
    | resolved now id =>
      obtain rfl := Option.some.inj ht
      exact faithful_of_modify (keeps_resolve now) (fun _ => rfl) hfaithful
    | acknowledged now id =>
      obtain rfl := Option.some.inj ht
      refine faithful_of_modify (keeps_acknowledge now) (fun i => ?_) hfaithful
      unfold Incident.acknowledge
      split <;> rfl
  | some e =>
    have hvalid' : t.store.Valid := valid_apply_act hvalid hv
    -- The severities that the act compares.
    have hlatest : ∀ i ∈ t.store.rows, a.latest h v t i.id =
        if i.Has e.rule (e.hash h.digest16) then e.severity else v.latest i.id := by
      intro i hi
      have hiff : (∃ j ∈ t.store.rows, j.id = i.id ∧ j.Has e.rule (e.hash h.digest16)) ↔
          i.Has e.rule (e.hash h.digest16) := by
        constructor
        · rintro ⟨j, hj, hid, hhas⟩
          rwa [← hvalid'.eq_of_id hj hi hid]
        · exact fun hhas => ⟨i, hi, rfl, hhas⟩
      simp only [Act.latest, he, hiff]
    constructor
    · intro hfaithful' e' he' i hi hhas
      obtain rfl := Option.some.inj (he.symm.trans he')
      rcases evaluate_cases ht he with ⟨now, j, hj, hjhas, hstore, -⟩ | ⟨hnone, -⟩
      · obtain rfl := hvalid.keyed i hi j hj _ _ hhas hjhas
        have hrow : i.extend now e ∈ t.store.rows := by
          rw [hstore]
          exact Store.mem_modify.mpr (.inl ⟨i, hi, rfl, rfl⟩)
        have hle : a.latest h v t (i.extend now e).id ≤ i.severity := hfaithful' _ hrow hhas.1
        rw [hlatest _ hrow] at hle
        exact (if_pos hhas).symm.trans_le hle
      · exact absurd hhas (hnone i hi)
    · intro hcalm j hj hlive
      change a.latest h v t j.id ≤ j.severity
      rw [hlatest j hj]
      split
      · rename_i hhas
        rcases evaluate_cases ht he with ⟨now, i, hi, hihas, hstore, -⟩ | ⟨hnone, now, hstore⟩
        · rw [hstore] at hj
          rcases Store.mem_modify.mp hj with ⟨k, hk, hid, rfl⟩ | ⟨hj', hid⟩
          · obtain rfl := hvalid.eq_of_id hk hi hid
            exact hcalm e he k hk hihas
          · exact hcalm e he j hj' hhas
        · rw [hstore] at hj
          rcases List.mem_append.mp hj with hj | hj
          · exact absurd hhas (hnone j hj)
          · rw [List.mem_singleton.mp hj]
            exact le_rfl
      · rename_i hhas
        rcases evaluate_cases ht he with ⟨now, i, hi, hihas, hstore, -⟩ | ⟨hnone, now, hstore⟩
        · rw [hstore] at hj
          rcases Store.mem_modify.mp hj with ⟨k, hk, hid, rfl⟩ | ⟨hj, -⟩
          · obtain rfl := hvalid.eq_of_id hk hi hid
            exact absurd hihas hhas
          · exact hfaithful j hj hlive
        · rw [hstore] at hj
          rcases List.mem_append.mp hj with hj | hj
          · exact hfaithful j hj hlive
          · rw [List.mem_singleton.mp hj] at hhas
            exact absurd ⟨rfl, rfl, rfl⟩ hhas

/-- A calm act escalates nothing. -/
theorem not_escalates_of_calm {id : ℕ} (hcalm : Calm h v a) : ¬ Escalates h v a id := by
  rintro ⟨e, he, hcritical, i, hi, -, hhas, hwarning⟩
  have hle := hcalm e he i hi hhas
  rw [hcritical, hwarning] at hle
  exact absurd hle (by decide)

/-- **Escalations.** In every state of a run in which no evaluation is more severe than the open
incident it extends, open incidents are at least as severe as their latest evaluations. One more act
keeps that, and tells of every incident that it raises to critical, if and only if it is calm,
too. -/
theorem escalation_law {next : ℕ} {latest : ℕ → Severity} {acts : List Act}
    (hrun : Run (Guarded (Calm h) fun v a v' => a.apply h v = some v')
      ⟨⟨.empty next, []⟩, latest⟩ acts v) :
    Faithful v ∧ ∀ a v', a.apply h v = some v' →
      ((Faithful v' ∧ ∀ id, Escalates h v a id → Notified v v' id) ↔ Calm h v a) := by
  have hinv : v.session.store.Valid ∧ Faithful v := by
    refine hrun.invariant (I := fun v => v.session.store.Valid ∧ Faithful v) ?_
      ⟨valid_empty next, by simp [Faithful, Store.empty]⟩
    rintro v a v' ⟨hvalid, hfaithful⟩ ⟨hcalm, hv⟩
    exact ⟨valid_apply_act hvalid hv, (faithful_iff hvalid hfaithful hv).mpr hcalm⟩
  refine ⟨hinv.2, fun a v' hv => ?_⟩
  rw [faithful_iff hinv.1 hinv.2 hv]
  exact and_iff_left_of_imp fun hcalm id hescalates =>
    absurd hescalates (not_escalates_of_calm hcalm)

end Laws

/-! ### A UPS with a high load -/

/-- A snapshot of a UPS with a high load. -/
def highLoad (severity : Severity) (now : ℚ) : Report where
  cfg := ⟨1, "nut", "ups", none, by decide⟩
  alerts := [⟨severity, "UPS high load", "", ""⟩]
  index := fun _ => none
  endpoint := "10.0.0.9"
  now := now

/-- What the evaluation of such a snapshot does with the alert. -/
def highLoadAct (severity : Severity) (now : ℚ) : Act :=
  .alert now alertRule "ups: UPS high load" severity "ia:1:bc861d8726f5c16c" []
    (by decide)

/-- The session after two snapshots with a warning. -/
def afterWarnings : Streaks × Session :=
  (evaluateAlerts Hashing.sample.toDigests (highLoad .warning 101) .never
    (evaluateAlerts Hashing.sample.toDigests (highLoad .warning 100) .never
      (fun _ => 0, ⟨.empty 1, []⟩)).2).2

/-- The session after a third snapshot, in which the load is critical. -/
def afterCritical : Session :=
  (evaluateAlerts Hashing.sample.toDigests (highLoad .critical 102) .never afterWarnings).2.2

/-- The desk when the second snapshot has opened the incident. -/
def warnedDesk : Desk :=
  ((highLoadAct .warning 101).apply Hashing.sample.toDigests
    ⟨⟨.empty 1, []⟩, fun _ => .info⟩).getD ⟨⟨.empty 1, []⟩, fun _ => .info⟩

/-- The incident is as severe as the snapshot that has opened it. -/
theorem faithful_warnedDesk : Faithful warnedDesk :=
  have hrun : Run (Guarded (Calm Hashing.sample.toDigests)
      fun v a v' => a.apply Hashing.sample.toDigests v = some v')
      ⟨⟨.empty 1, []⟩, fun _ => .info⟩ [highLoadAct .warning 101] warnedDesk :=
    .cons ⟨by simp [Calm, Store.empty], rfl⟩ (.nil warnedDesk)
  (escalation_law hrun).1

/-- The third snapshot raises the load to critical: the incident keeps its severity, and nobody is
told. -/
theorem not_faithful_highLoad :
    ∃ v, (highLoadAct .critical 102).apply Hashing.sample.toDigests warnedDesk = some v ∧
      v.session = afterCritical ∧ ¬ Faithful v ∧
        Escalates Hashing.sample.toDigests warnedDesk (highLoadAct .critical 102) 1 ∧
          ¬ Notified warnedDesk v 1 := by
  have hbefore : ∃ i ∈ warnedDesk.session.store.rows, i.id = 1 ∧
      i.Has alertRule "ia:1:bc861d8726f5c16c" ∧ i.severity = .warning := by decide +kernel
  have hafter : ∃ i ∈ afterCritical.store.rows, i.id = 1 ∧ i.live = true ∧
      i.severity = .warning := by decide +kernel
  cases hv : (highLoadAct .critical 102).apply Hashing.sample.toDigests warnedDesk with
  | none => exact absurd (congrArg Option.isSome hv) (by decide +kernel)
  | some v =>
    have hsession : v.session = afterCritical := by
      have : ((highLoadAct .critical 102).apply Hashing.sample.toDigests warnedDesk).map
          Desk.session = some afterCritical := by decide +kernel
      rw [hv] at this
      exact Option.some.inj this
    have hlatest : v.latest 1 = .critical := by
      have : ((highLoadAct .critical 102).apply Hashing.sample.toDigests warnedDesk).map
          (fun v => v.latest 1) = some .critical := by decide +kernel
      rw [hv] at this
      exact Option.some.inj this
    refine ⟨v, rfl, hsession, fun hfaithful => ?_, ?_, ?_⟩
    · obtain ⟨i, hi, hid, hlive, hseverity⟩ := hafter
      have hle := hfaithful i (hsession ▸ hi) hlive
      rw [hid, hlatest, hseverity] at hle
      exact absurd hle (by decide)
    · obtain ⟨i, hi, hid, hhas, hseverity⟩ := hbefore
      exact ⟨_, rfl, rfl, i, hi, hid, hhas, hseverity⟩
    · rintro ⟨notes, hqueue, n, hn, -, -⟩
      have hsame : afterCritical.queued = warnedDesk.session.queued := by decide +kernel
      rw [hsession, hsame, List.self_eq_append_right] at hqueue
      rw [hqueue] at hn
      cases hn

end Nodeglow.Incidents
