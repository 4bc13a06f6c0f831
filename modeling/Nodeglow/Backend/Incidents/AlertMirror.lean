import Mathlib.Data.List.Find
import Nodeglow.Backend.Incidents.AlertEvaluation
import Nodeglow.Backend.Incidents.Announcements
import Nodeglow.Foundation.Streak

/-!
# Alert incidents mirror the alerts

The results of a tenant's integrations are taken in one after the other, in the sessions of units.
As long as an evaluation that raises does so before it has changed a streak, and a commit that fails
follows evaluations that have changed none, the streaks are those of the completed evaluations, and
after each of them the open alert incidents of its source mirror its alerts. An evaluation that
raises later is rolled back in the table but not in the streaks: the alerts that it has counted are
ahead of the others, and open after a single completed evaluation.

## Main results

* `exists_run_unit` — a unit is a run of this kind.
* `sameOutside_ingest` — a result changes incidents of its own source only.
* `Feed.Inv.step` — the streaks are those of the completed evaluations.
* `mirror_law` — runs.

Source: `backend/services/integration_alerts.py`, lines 62–98 and 204–275;
`backend/services/integration_ingest.py`, lines 108–236.
-/

namespace Nodeglow.Incidents

local instance lawfulBEq_about : LawfulBEq (String × String) := inferInstance

/-! ### One result -/

/-- The report that is evaluated when a result is taken in: that of an accepted success with alerts,
unless another member of the group is the primary. -/
def Ingest.evaluates (i : Ingest) (owners : Owners) : Option Report :=
  match i.collected with
  | .success clusterName (some alerts) =>
    if i.accepted = true ∧ (groupKey (autoGroup clusterName i.cfg)).any (· ∈ owners) = false then
      some (i.report clusterName alerts)
    else none
  | _ => none

/-- The incident of a config that cannot collect. -/
def Incident.OfFailure (cfg : IntegrationConfig) (inc : Incident) : Prop :=
  inc.rule = failedRule ∧ inc.hostIdsHash = some (failedKey cfg)

/-- The incidents that a result may change: that of its own failure, and those of the source whose
alerts it evaluates. -/
def Ingest.Concerns (h : Digests) (owners : Owners) (i : Ingest) (inc : Incident) : Prop :=
  inc.OfFailure i.cfg ∨ ∃ r, i.evaluates owners = some r ∧ inc.OfSource h r.cfg

section Results

variable {h : Digests} {i : Ingest} {owners : Owners} {streaks : Streaks} {t : Session} {r : Report}
  {cfg : IntegrationConfig} {P : Incident → Prop} {p : Streaks × Session}
  {step : Streaks × Session → Bool × Streaks × Session}

theorem failedKey_ne_empty (cfg : IntegrationConfig) : failedKey cfg ≠ "" := by
  intro heq
  simpa [failedKey] using congrArg String.toList heq

theorem failedKey_autoGroup (clusterName : Option String) (cfg : IntegrationConfig) :
    failedKey (autoGroup clusterName cfg) = failedKey cfg := by
  unfold autoGroup
  split <;> rfl

/-- A savepoint that is rolled back leaves every incident alone. -/
theorem sameOutside_alerting (hstep : (step p).1 = false →
    SameOutside P p.2.store (step p).2.2.store) :
    SameOutside P p.2.store (alerting step p).2.store := by
  unfold alerting
  dsimp only
  split
  · exact .of_rows rfl
  · rename_i hok
    exact hstep (Bool.eq_false_iff.mpr hok)

theorem sameOutside_successStep (streaks : Streaks) (hvalid : t.store.Valid)
    (hcfg : failedKey cfg = failedKey i.cfg) :
    SameOutside (Incident.OfFailure i.cfg) t.store (successStep i cfg (streaks, t)).2.store := by
  refine sameOutside_alerting fun _ => sameOutside_resolveIncidents hvalid (fun _ h => h) ?_
  intro inc hinc
  obtain ⟨hmem, hhas⟩ := List.mem_filter.mp hinc
  obtain ⟨-, hrule, hhash⟩ := of_decide_eq_true hhas
  exact ⟨hmem, hrule, hcfg ▸ hhash⟩

theorem sameOutside_failureStep {f : Failure} (hvalid : t.store.Valid) :
    SameOutside (Incident.OfFailure i.cfg) t.store (failureStep h i f (streaks, t)).2.store := by
  refine sameOutside_alerting fun _ => ?_
  cases hrecord : recordFailure h i.cfg f t with
  | none => exact .refl _ _
  | some t' =>
    unfold recordFailure at hrecord
    split at hrecord
    · obtain rfl := Option.some.inj hrecord
      exact .refl _ _
    split at hrecord
    · obtain rfl := Option.some.inj hrecord
      exact .refl _ _
    · obtain ⟨t'', ht'', -, -, hsame⟩ := openOrExtend_spec h f.now failedRule
        (String.ofList ((i.cfg.name ++ ": integration cannot collect").toList.take 256)) .warning
        (f.host.map HostRef.id).toList hvalid (failedKey_ne_empty i.cfg)
      obtain rfl := Option.some.inj (ht''.symm.trans hrecord)
      exact hsame

theorem streaks_successStep : (successStep i cfg (streaks, t)).1 = streaks := by
  unfold successStep alerting
  dsimp only
  split <;> rfl

theorem streaks_failureStep {f : Failure} : (failureStep h i f (streaks, t)).1 = streaks := by
  cases hrecord : recordFailure h i.cfg f t with
  | none => simp only [failureStep, alerting, hrecord, if_true]
  | some t' =>
    simp only [failureStep, alerting, hrecord]
    split <;> rfl

/-- A result that is evaluated. -/
theorem ingest_of_evaluates (he : i.evaluates owners = some r) :
    (ingest h i owners p).2.2 = alerting (evaluateAlerts h r i.fault) (successStep i r.cfg p) ∧
      failedKey r.cfg = failedKey i.cfg := by
  unfold Ingest.evaluates at he
  split at he
  · rename_i clusterName alerts hcollected
    obtain ⟨⟨haccepted, hprimary⟩, rfl⟩ := made_of_guard he
    refine ⟨?_, failedKey_autoGroup clusterName i.cfg⟩
    simp only [ingest, haccepted, hcollected, hprimary, reduceCtorEq, Bool.false_eq_true, if_false]
    rfl
  · cases he

/-- A result that is not evaluated. -/
theorem ingest_of_not_evaluates (hvalid : t.store.Valid) (he : i.evaluates owners = none) :
    (ingest h i owners (streaks, t)).2.2.1 = streaks ∧
      SameOutside (Incident.OfFailure i.cfg) t.store
        (ingest h i owners (streaks, t)).2.2.2.store := by
  unfold ingest
  split
  · exact ⟨rfl, .refl _ _⟩
  · rename_i haccepted
    split
    · exact ⟨streaks_failureStep, sameOutside_failureStep hvalid⟩
    · rename_i clusterName alerts hcollected
      have hsuccess := sameOutside_successStep streaks hvalid
        (failedKey_autoGroup clusterName i.cfg)
      dsimp only
      split
      · exact ⟨streaks_successStep, hsuccess⟩
      · rename_i hprimary
        cases alerts with
        | none => exact ⟨streaks_successStep, hsuccess⟩
        | some alerts =>
          rw [Ingest.evaluates, hcollected] at he
          simp [haccepted, hprimary] at he

/-- **A result changes incidents of its own source only**, whatever raises. -/
theorem sameOutside_ingest (hvalid : t.store.Valid) :
    SameOutside (i.Concerns h owners) t.store (ingest h i owners (streaks, t)).2.2.2.store := by
  cases he : i.evaluates owners with
  | none => exact (ingest_of_not_evaluates hvalid he).2.mono fun _ => .inl
  | some r =>
    obtain ⟨hingest, hcfg⟩ := ingest_of_evaluates (h := h) (p := (streaks, t)) he
    rw [hingest]
    have hsuccess := sameOutside_successStep streaks hvalid hcfg
    have hvalid' : (successStep i r.cfg (streaks, t)).2.store.Valid :=
      hvalid.writes (grows_successStep (h := h)).writes
    refine (hsuccess.mono fun _ => .inl).trans (sameOutside_alerting fun hok => ?_)
    by_cases hfault : i.fault = .never
    · obtain ⟨streaks', t', heq, -, -, -, hsame⟩ := @evaluateAlerts_spec h r _ hvalid'
        (successStep i r.cfg (streaks, t)).1
      rw [hfault, heq]
      exact hsame.mono fun _ hinc => .inr ⟨r, he, hinc⟩
    · rw [evaluateAlerts_raises hfault] at hok
      cases hok

end Results

/-! ### Runs -/

/-- What a unit's session began with. The program keeps the table only. -/
structure Checkpoint where
  store : Store
  streaks : Streaks
  past : List Report

/-- The integrations of a tenant: the session of the unit under way, the streaks, and the groups
whose primary is decided. The program does not keep `past`, the reports of the completed
evaluations, the latest first. -/
structure Feed where
  session : Session
  streaks : Streaks
  owners : Owners
  past : List Report
  saved : Checkpoint

/-- What happens to the integrations of a tenant. -/
inductive FeedEvent
  /-- A result is taken in. -/
  | ingested (i : Ingest)
  /-- A unit is committed. -/
  | committed
  /-- A unit is rolled back, because its commit fails or it is not reached. -/
  | rolledBack
  /-- The groups whose primary is decided for the next result: none of them in a new pass. -/
  | decided (owners : Owners)
  /-- Between two units the table changes: users, correlation rules, incidents of configs that are
  gone. -/
  | elsewhere (s : Store)

/-- The integrations of a new process. -/
def Feed.start (s : Store) : Feed :=
  ⟨⟨s, []⟩, fun _ => 0, [], [], ⟨s, fun _ => 0, []⟩⟩

section Feed

variable (h : Digests)

/-- A result is taken in. -/
def Feed.ingested (v : Feed) (i : Ingest) : Feed :=
  let out := ingest h i v.owners (v.streaks, v.session)
  { session := out.2.2.2
    streaks := out.2.2.1
    owners := out.2.1
    past := if i.fault = .never then (i.evaluates v.owners).toList ++ v.past else v.past
    saved := v.saved }

/-- The unit is committed, and its notifications are sent. -/
def Feed.commit (v : Feed) : Feed :=
  { v with
    session := ⟨v.session.store, []⟩
    saved := ⟨v.session.store, v.streaks, v.past⟩ }

/-- The unit is rolled back: the table, and not the streaks. -/
def Feed.rollBack (v : Feed) : Feed :=
  let store := { v.saved.store with next := v.session.store.next }
  { v with
    session := ⟨store, []⟩
    past := v.saved.past
    saved := ⟨store, v.streaks, v.saved.past⟩ }

/-- The states after an event. -/
def Feed.Step (v : Feed) (event : FeedEvent) (v' : Feed) : Prop :=
  match event with
  | .ingested i => v' = v.ingested h i
  | .committed => v' = v.commit
  | .rolledBack => v' = v.rollBack
  | .decided owners => v' = { v with owners := owners }
  | .elsewhere s => v.session.store = v.saved.store ∧
      Writes h.digest16 Write.Regular v.session.store s ∧
      v' = { v with session := { v.session with store := s }, saved := { v.saved with store := s } }

/-- The events of a unit. -/
def unitEvents (members : List Ingest) (commits : Bool) : List FeedEvent :=
  members.map .ingested ++ [if commits then .committed else .rolledBack]

/-- The titles of a report do not contain the sign that stands between a title and an entity. -/
def Report.Titled (r : Report) : Prop := ∀ a ∈ r.alerts, '|' ∉ a.title.toList

/-- The evaluation completes, or it raises before it has changed a streak: before it has ended any
if there are some to end, and before it has counted any. -/
def Report.RaisesEarly (r : Report) (fault : Fault) (streaks : Streaks) : Prop :=
  fault = .never ∨ fault = .before ∨ (fault = .reading ∨ r.worthy = []) ∧
    ∀ key, startsWith (alertPrefix h r.cfg) key = true → key ∉ r.keys h → streaks key = 0

/-- **The condition.** What is rolled back has not changed a streak. -/
def FeedEvent.Kept (v : Feed) : FeedEvent → Prop
  | .ingested i => ∀ r, i.evaluates v.owners = some r → r.RaisesEarly h i.fault v.streaks
  | .rolledBack => v.streaks = v.saved.streaks
  | _ => True

/-- The titles of the reports that an event brings. -/
def FeedEvent.Titled (v : Feed) : FeedEvent → Prop
  | .ingested i => ∀ r, i.evaluates v.owners = some r → r.Titled
  | _ => True

end Feed

/-- **A unit is a run** of its results and its commit. -/
theorem exists_run_unit {h : Digests} {v : Feed} {members : List Ingest} {commits : Bool}
    (hqueue : v.session.queued = []) (hsaved : v.saved.store = v.session.store) :
    ∃ v', Run (Feed.Step h) v (unitEvents members commits) v' ∧
      v'.session.store = (runUnit h members v.owners commits v.streaks v.session.store).1 ∧
      v'.streaks = (runUnit h members v.owners commits v.streaks v.session.store).2.1 := by
  have hmembers : ∀ (members : List Ingest) (v : Feed),
      ∃ u, Run (Feed.Step h) v (members.map .ingested) u ∧ u.saved = v.saved ∧
        (u.owners, u.streaks, u.session) =
          ingestAll h members v.owners (v.streaks, v.session) := by
    intro members
    induction members with
    | nil => exact fun v => ⟨v, .nil v, rfl, rfl⟩
    | cons i members ih =>
      intro v
      obtain ⟨u, hrun, hsaved, hu⟩ := ih (v.ingested h i)
      exact ⟨u, .cons rfl hrun, hsaved, hu⟩
  obtain ⟨u, hrun, husaved, hu⟩ := hmembers members v
  have hsession : (⟨v.session.store, []⟩ : Session) = v.session := by rw [← hqueue]
  have hunit : ingestAll h members v.owners (v.streaks, ⟨v.session.store, []⟩) =
      (u.owners, u.streaks, u.session) := by rw [hsession, hu]
  simp only [runUnit, hunit]
  cases commits with
  | true => exact ⟨u.commit, hrun.append (.single rfl), rfl, rfl⟩
  | false =>
    refine ⟨u.rollBack, hrun.append (.single rfl), ?_, rfl⟩
    simp only [Feed.rollBack, husaved, hsaved, Bool.false_eq_true, if_false]

/-! ### The streaks are those of the completed evaluations -/

/-- The reports of a config's source. -/
def reportsOf (cfg : IntegrationConfig) (past : List Report) : List Report :=
  past.filter fun r => r.cfg.origin = cfg.origin

/-- The streak of a key is the number of its source's latest reports in a row that have it. -/
def Tallied (h : Digests) (past : List Report) (streaks : Streaks) : Prop :=
  ∀ cfg key, startsWith (alertPrefix h cfg) key = true →
    streaks key = streak (fun r => key ∈ r.keys h) (reportsOf cfg past)

section Tallies

variable {h : Hashing} {past : List Report} {streaks streaks' : Streaks} {r : Report}

theorem tallied_nil (h : Digests) : Tallied h [] fun _ => 0 := fun _ _ _ => rfl

/-- A completed evaluation. -/
theorem Tallied.cons (htallied : Tallied h.toDigests past streaks)
    (hstreaks : ∀ key, streaks' key =
      if startsWith (alertPrefix h.toDigests r.cfg) key = true then
        if key ∈ r.keys h.toDigests then streaks key + 1 else 0
      else streaks key) : Tallied h.toDigests (r :: past) streaks' := by
  intro cfg key hkey
  by_cases horigin : r.cfg.origin = cfg.origin
  · have hpast : reportsOf cfg (r :: past) = r :: reportsOf cfg past :=
      List.filter_cons_of_pos (by simpa using horigin)
    rw [hpast, streak_cons, hstreaks, alertPrefix_congr horigin, if_pos hkey, htallied cfg key hkey]
    simp only [decide_eq_true_eq]
  · have hpast : reportsOf cfg (r :: past) = reportsOf cfg past :=
      List.filter_cons_of_neg (by simpa using horigin)
    have hother : ¬ startsWith (alertPrefix h.toDigests r.cfg) key = true :=
      fun hstart => horigin (origin_eq_of_startsWith hstart hkey)
    rw [hpast, hstreaks, if_neg hother, htallied cfg key hkey]

/-- An evaluation that raises early changes no streak. -/
theorem streaks_of_raisesEarly {h : Digests} {fault : Fault} {t : Session}
    (hearly : r.RaisesEarly h fault streaks) (hfault : fault ≠ .never) :
    (alerting (evaluateAlerts h r fault) (streaks, t)).1 = streaks := by
  have halerting : (alerting (evaluateAlerts h r fault) (streaks, t)).1 =
      (evaluateAlerts h r fault (streaks, t)).2.1 := by
    simp only [alerting, evaluateAlerts_raises hfault, if_true]
  rw [halerting]
  rcases hearly with hnever | rfl | ⟨hstill, hends⟩
  · exact absurd hnever hfault
  · rfl
  · have hsame : endStreaks h r streaks = streaks := by
      funext key
      unfold endStreaks
      split
      · rename_i hgone
        exact (hends key hgone.1 hgone.2).symm
      · rfl
    rcases hstill with rfl | hnone
    · exact hsame
    · have hcurrent : r.current h = [] := by rw [current_eq, hnone]; rfl
      simp only [evaluateAlerts, hcurrent, evaluateLoop, hsame]
      split
      · rfl
      split
      · rfl
      split <;> rfl

end Tallies

/-- What is true in a run whose steps all meet the condition. -/
structure Feed.Inv (h : Digests) (v : Feed) : Prop where
  valid : v.session.store.Valid
  saved_valid : v.saved.store.Valid
  next_le : v.saved.store.next ≤ v.session.store.next
  tallied : Tallied h v.past v.streaks
  saved_tallied : Tallied h v.saved.past v.saved.streaks
  titled : ∀ r ∈ v.past, r.Titled
  saved_titled : ∀ r ∈ v.saved.past, r.Titled

theorem Feed.inv_start (h : Digests) {s : Store} (hs : s.Valid) : (Feed.start s).Inv h :=
  ⟨hs, hs, le_rfl, tallied_nil h, tallied_nil h, by simp [Feed.start], by simp [Feed.start]⟩

section Invariant

variable {h : Hashing} {v v' : Feed} {i : Ingest} {r : Report}

/-- A result that is taken in. -/
theorem Feed.Inv.ingested (hv : v.Inv h.toDigests)
    (hkept : FeedEvent.Kept h.toDigests v (.ingested i))
    (htitled : FeedEvent.Titled v (.ingested i)) : (v.ingested h.toDigests i).Inv h.toDigests := by
  have hgrows : Grows h.toDigests v.session (v.ingested h.toDigests i).session :=
    grows_ingest hv.valid
  refine ⟨hv.valid.writes hgrows.writes, hv.saved_valid,
    hv.next_le.trans (next_le_of_writes hgrows.writes), ?_, hv.saved_tallied, ?_, hv.saved_titled⟩
  · simp only [Feed.ingested]
    cases he : i.evaluates v.owners with
    | none =>
      rw [(ingest_of_not_evaluates hv.valid he).1]
      split <;> exact hv.tallied
    | some r =>
      rw [(ingest_of_evaluates he).1]
      have hsuccess : (successStep i r.cfg (v.streaks, v.session)).1 = v.streaks :=
        streaks_successStep
      have hvalid' : (successStep i r.cfg (v.streaks, v.session)).2.store.Valid :=
        hv.valid.writes (grows_successStep (h := h.toDigests)).writes
      generalize successStep i r.cfg (v.streaks, v.session) = p at hsuccess hvalid'
      obtain ⟨streaks, t⟩ := p
      obtain rfl := hsuccess
      split
      · rename_i hfault
        obtain ⟨streaks', t', heq, -, hstreaks, -⟩ :=
          @evaluateAlerts_spec h.toDigests r t hvalid' v.streaks
        rw [hfault, alerting, heq]
        exact hv.tallied.cons hstreaks
      · rename_i hfault
        rw [streaks_of_raisesEarly (hkept r he) hfault]
        exact hv.tallied
  · simp only [Feed.ingested]
    split
    · intro r hr
      rcases List.mem_append.mp hr with hr | hr
      · exact htitled r (Option.mem_toList.mp hr)
      · exact hv.titled r hr
    · exact hv.titled

/-- **The streaks are those of the completed evaluations**, in a run whose steps all meet the
condition. -/
theorem Feed.Inv.step {event : FeedEvent} (hv : v.Inv h.toDigests)
    (hkept : event.Kept h.toDigests v) (htitled : event.Titled v)
    (hstep : v.Step h.toDigests event v') : v'.Inv h.toDigests := by
  cases event with
  | ingested i =>
    obtain rfl := hstep
    exact hv.ingested hkept htitled
  | committed =>
    obtain rfl := hstep
    exact ⟨hv.valid, hv.valid, le_rfl, hv.tallied, hv.tallied, hv.titled, hv.titled⟩
  | rolledBack =>
    obtain rfl := hstep
    have hvalid : Store.Valid { v.saved.store with next := v.session.store.next } := by
      obtain ⟨n, hn⟩ := Nat.exists_eq_add_of_le hv.next_le
      rw [hn]
      exact hv.saved_valid.skip n
    have htallied : Tallied h.toDigests v.saved.past v.streaks := by
      rw [show v.streaks = v.saved.streaks from hkept]
      exact hv.saved_tallied
    exact ⟨hvalid, hvalid, le_rfl, htallied, htallied, hv.saved_titled, hv.saved_titled⟩
  | decided owners =>
    obtain rfl := hstep
    exact ⟨hv.valid, hv.saved_valid, hv.next_le, hv.tallied, hv.saved_tallied, hv.titled,
      hv.saved_titled⟩
  | elsewhere s =>
    obtain ⟨-, hwrites, rfl⟩ := hstep
    have hvalid : s.Valid := hv.valid.writes hwrites
    exact ⟨hvalid, hvalid, le_rfl, hv.tallied, hv.saved_tallied, hv.titled, hv.saved_titled⟩

end Invariant

/-! ### Incidents and alerts -/

/-- The titles and entities of a report's alerts. -/
def Report.abouts (r : Report) : List (String × String) := r.worthy.map Alert.about

/-- The alert about a title and an entity is held back by maintenance. The first of several
counts. -/
def Report.Held (r : Report) (p : String × String) : Prop :=
  (r.worthy.find? fun a => a.about = p).any r.heldBack = true

/-- The report has an alert about a title and an entity, and there was an open incident about it, or
enough evaluations of the source in a row have reported it and it is not held back. -/
def Report.Due (h : Digests) (past : List Report) (s : Store) (r : Report) (p : String × String) :
    Prop :=
  p ∈ r.abouts ∧ (Found s alertRule (aboutKey h r.cfg p) ∨
    alertMinCycles ≤ streak (fun e => p ∈ e.abouts) (r :: reportsOf r.cfg past) ∧ ¬ r.Held p)

instance (r : Report) (p : String × String) : Decidable (r.Held p) :=
  inferInstanceAs (Decidable (_ = true))

instance (h : Digests) (past : List Report) (s : Store) (r : Report) (p : String × String) :
    Decidable (r.Due h past s p) :=
  inferInstanceAs (Decidable (_ ∧ (_ ∨ _ ∧ ¬ _)))

/-- The open alert incidents of the report's source are one for each title and entity that is
due. -/
structure MirrorsAlerts (h : Digests) (past : List Report) (r : Report) (s s' : Store) : Prop where
  due : ∀ inc ∈ s'.rows, inc.live = true → inc.OfSource h r.cfg →
    ∃! p, r.Due h past s p ∧ inc.hostIdsHash = some (aboutKey h r.cfg p)
  opened : ∀ p, r.Due h past s p → ∃! inc, inc ∈ s'.rows ∧ inc.Has alertRule (aboutKey h r.cfg p)

section MirrorsAlerts

variable {h : Hashing} {past : List Report} {r e : Report} {s s' : Store} {streaks : Streaks}
  {p : String × String}

theorem noBar_of_mem_abouts (htitled : r.Titled) (hp : p ∈ r.abouts) : '|' ∉ p.1.toList := by
  obtain ⟨a, ha, rfl⟩ := List.mem_map.mp hp
  exact htitled a (List.mem_of_mem_filter ha)

/-- A report of the source has the key if it has the title and the entity. -/
theorem aboutKey_mem_keys_iff (htitled : e.Titled) (horigin : e.cfg.origin = r.cfg.origin)
    (hp : '|' ∉ p.1.toList) :
    aboutKey h.toDigests r.cfg p ∈ e.keys h.toDigests ↔ p ∈ e.abouts := by
  rw [mem_keys, Report.abouts, List.mem_map]
  refine exists_congr fun a => and_congr_right fun ha => ?_
  rw [alertKey_eq, aboutKey_congr horigin]
  exact aboutKey_inj (htitled a (List.mem_of_mem_filter ha)) hp

/-- The entry of a key is the first alert about its title and entity. -/
theorem mem_current_iff (htitled : r.Titled) (hp : '|' ∉ p.1.toList) {a : Alert} :
    (aboutKey h.toDigests r.cfg p, a) ∈ r.current h.toDigests ↔
      r.worthy.find? (fun a => a.about = p) = some a := by
  rw [current_eq, mem_firstByKey]
  have hsame : r.worthy.find? (fun a => alertKey h.toDigests r.cfg a =
      aboutKey h.toDigests r.cfg p) = r.worthy.find? fun a => a.about = p := by
    refine List.find?_congr fun a ha => ?_
    rw [decide_eq_decide, alertKey_eq]
    exact aboutKey_inj (htitled a (List.mem_of_mem_filter ha)) hp
  rw [hsame]

/-- An alert opens an incident if its title and its entity are due. -/
theorem exists_opens_iff (htallied : Tallied h.toDigests past streaks)
    (hpast : ∀ e ∈ past, e.Titled) (htitled : r.Titled) (hp : p ∈ r.abouts) :
    (∃ a, (aboutKey h.toDigests r.cfg p, a) ∈ r.current h.toDigests ∧
      r.Opens (Found s alertRule (aboutKey h.toDigests r.cfg p))
        (streaks (aboutKey h.toDigests r.cfg p) + 1) a) ↔ r.Due h.toDigests past s p := by
  have hbar := noBar_of_mem_abouts htitled hp
  have hstreak : streaks (aboutKey h.toDigests r.cfg p) + 1 =
      streak (fun e => p ∈ e.abouts) (r :: reportsOf r.cfg past) := by
    rw [streak_cons, if_pos (by simpa using hp),
      htallied r.cfg _ (startsWith_aboutKey h.toDigests r.cfg p)]
    congr 1
    refine streak_congr fun e he => ?_
    obtain ⟨hmem, horigin⟩ := List.mem_filter.mp he
    rw [decide_eq_decide]
    exact aboutKey_mem_keys_iff (hpast e hmem) (of_decide_eq_true horigin) hbar
  obtain ⟨b, hb, rfl⟩ := List.mem_map.mp hp
  obtain ⟨a, ha⟩ := Option.isSome_iff_exists.mp
    (List.find?_isSome (p := fun a => decide (a.about = b.about)).mpr ⟨b, hb, by simp⟩)
  simp only [mem_current_iff htitled hbar, Report.Opens, Report.Due, Report.Held, hstreak, ha,
    Option.some.injEq, exists_eq_left', hp, true_and, Option.any_some, Bool.not_eq_true]

/-- **After a completed evaluation** the open incidents of the source mirror the alerts. -/
theorem mirrors_of_evaluated (hvalid : s'.Valid) (htallied : Tallied h.toDigests past streaks)
    (hpast : ∀ e ∈ past, e.Titled) (htitled : r.Titled)
    (hfound : ∀ key, startsWith (alertPrefix h.toDigests r.cfg) key = true →
      (Found s' alertRule key ↔ ∃ a, (key, a) ∈ r.current h.toDigests ∧
        r.Opens (Found s alertRule key) (streaks key + 1) a)) :
    MirrorsAlerts h.toDigests past r s s' := by
  have hdue : ∀ p ∈ r.abouts, Found s' alertRule (aboutKey h.toDigests r.cfg p) ↔
      r.Due h.toDigests past s p := fun p hp =>
    (hfound _ (startsWith_aboutKey h.toDigests r.cfg p)).trans
      (exists_opens_iff htallied hpast htitled hp)
  constructor
  · rintro inc hinc hlive ⟨hrule, key, hhash, hstart⟩
    have hopen : Found s' alertRule key := ⟨inc, hinc, hlive, hrule, hhash⟩
    obtain ⟨a, ha, -⟩ := (hfound key hstart).mp hopen
    obtain ⟨b, hb, hkey⟩ := mem_keys.mp (List.mem_map.mpr ⟨_, ha, rfl⟩)
    have hmem : b.about ∈ r.abouts := List.mem_map_of_mem hb
    obtain rfl : aboutKey h.toDigests r.cfg b.about = key := hkey
    refine ⟨b.about, ⟨(hdue _ hmem).mp hopen, hhash⟩, ?_⟩
    rintro p ⟨hp, hphash⟩
    have hkeys := Option.some.inj (hphash.symm.trans hhash)
    exact (aboutKey_inj (noBar_of_mem_abouts htitled hp.1)
      (noBar_of_mem_abouts htitled hmem)).mp hkeys
  · intro p hp
    obtain ⟨inc, hinc, hhas⟩ := (hdue p hp.1).mpr hp
    refine ⟨inc, ⟨hinc, hhas⟩, ?_⟩
    rintro other ⟨hother, hotherhas⟩
    exact hvalid.keyed other hother inc hinc _ _ hotherhas hhas

end MirrorsAlerts

/-- **Alert incidents mirror the alerts.** In a run in which nothing is rolled back that has changed
a streak, after every completed evaluation the open alert incidents of its source are one for each
title and entity that is due; and whatever a result brings, and wherever its steps raise, no other
source's incident is changed. -/
theorem mirror_law (h : Hashing) {s : Store} (hs : s.Valid) {events : List FeedEvent} {v : Feed}
    (hrun : Run (Guarded (fun v event => event.Titled v ∧ event.Kept h.toDigests v)
      (Feed.Step h.toDigests)) (.start s) events v) (i : Ingest)
    (htitled : FeedEvent.Titled v (.ingested i)) :
    (∀ r, i.evaluates v.owners = some r → i.fault = .never →
      MirrorsAlerts h.toDigests v.past r v.session.store (v.ingested h.toDigests i).session.store) ∧
    SameOutside (i.Concerns h.toDigests v.owners) v.session.store
      (v.ingested h.toDigests i).session.store := by
  have hv : v.Inv h.toDigests := hrun.invariant
    (fun v event v' hv hstep => hv.step hstep.1.2 hstep.1.1 hstep.2) (Feed.inv_start h.toDigests hs)
  refine ⟨fun r he hfault => ?_, sameOutside_ingest hv.valid⟩
  obtain ⟨hingest, hcfg⟩ := ingest_of_evaluates (h := h.toDigests) (p := (v.streaks, v.session)) he
  have hsuccess := sameOutside_successStep v.streaks hv.valid hcfg
  have hstreaks : (successStep i r.cfg (v.streaks, v.session)).1 = v.streaks := streaks_successStep
  have hvalid : (successStep i r.cfg (v.streaks, v.session)).2.store.Valid :=
    hv.valid.writes (grows_successStep (h := h.toDigests)).writes
  have hsession : (v.ingested h.toDigests i).session =
      (alerting (evaluateAlerts h.toDigests r i.fault)
        (successStep i r.cfg (v.streaks, v.session))).2 := congrArg Prod.snd hingest
  rw [hsession]
  -- Resolving the config's failure leaves its alerts alone.
  have hsame : ∀ key, Found (successStep i r.cfg (v.streaks, v.session)).2.store alertRule key ↔
      Found v.session.store alertRule key := fun key => by
    refine hsuccess.found fun inc hhas hfailure => ?_
    exact absurd (hhas.2.1.symm.trans hfailure.1) (by decide)
  generalize successStep i r.cfg (v.streaks, v.session) = p at hstreaks hvalid hsame
  obtain ⟨streaks, t⟩ := p
  obtain rfl := hstreaks
  obtain ⟨streaks', t', heq, hvalid', -, hfound, -⟩ :=
    @evaluateAlerts_spec h.toDigests r t hvalid v.streaks
  have hcompleted : (alerting (evaluateAlerts h.toDigests r i.fault) (v.streaks, t)).2 = t' := by
    rw [hfault, alerting, heq]
    rfl
  rw [hcompleted]
  refine mirrors_of_evaluated hvalid' hv.tallied hv.titled (htitled r he) fun key hkey => ?_
  rw [hfound key hkey, hsame]

/-! ### An evaluation that is rolled back -/

/-- A snapshot with warnings. -/
def warnings (titles : List String) (now : ℚ) (fault : Fault) : Ingest where
  cfg := ⟨1, "truenas", "nas", none, noSlash_truenas⟩
  accepted := true
  collected := .success none (some (titles.map fun title => ⟨.warning, title, "", ""⟩))
  index := fun _ => none
  endpoint := "10.0.0.9"
  now := now
  recordRaises := false
  fault := fault

/-- What is evaluated of it. -/
def warningsReport (titles : List String) (now : ℚ) : Report :=
  (warnings titles now .never).report none (titles.map fun title => ⟨.warning, title, "", ""⟩)

/-- A new tenant after units with one snapshot each. -/
def afterUnits (units : List Ingest) : Feed :=
  units.foldl (fun v i => (v.ingested Hashing.sample.toDigests i).commit) (.start (.empty 1))

/-- The second snapshot with a warning opens one incident. -/
theorem mirror_law_warnings :
    ∃! inc, inc ∈ ((afterUnits [warnings ["A"] 100 .never]).ingested Hashing.sample.toDigests
      (warnings ["A"] 101 .never)).session.store.rows ∧
        inc.Has alertRule "ia:1:0bcdb101896e0552" := by
  have htitled : ∀ now, (warningsReport ["A"] now).Titled := by
    intro now a ha
    obtain rfl := List.mem_singleton.mp ha
    decide
  have hevaluates : ∀ now owners r, (warnings ["A"] now .never).evaluates owners = some r →
      r = warningsReport ["A"] now := fun _ _ _ hr => (Option.some.inj hr).symm
  have hrun : Run (Guarded (fun v event => event.Titled v ∧ event.Kept Hashing.sample.toDigests v)
      (Feed.Step Hashing.sample.toDigests)) (.start (.empty 1))
      [.ingested (warnings ["A"] 100 .never), .committed]
      (afterUnits [warnings ["A"] 100 .never]) :=
    .cons ⟨⟨fun r hr => hevaluates _ _ r hr ▸ htitled 100, fun _ _ => .inl rfl⟩, rfl⟩
      (.cons ⟨⟨trivial, trivial⟩, rfl⟩ (.nil _))
  have hmirrors := (mirror_law Hashing.sample (valid_empty 1) hrun (warnings ["A"] 101 .never)
    fun r hr => hevaluates _ _ r hr ▸ htitled 101).1 (warningsReport ["A"] 101) rfl rfl
  exact hmirrors.opened ("A", "") (by decide +kernel)

/-- A new tenant after two snapshots with a warning, and a third one that brings two more and is
rolled back when it has counted the first of them. -/
def afterRollback : Feed :=
  afterUnits [warnings ["A"] 100 .never, warnings ["A"] 101 .never,
    warnings ["B", "A", "C"] 102 (.at 1)]

/-- The fourth snapshot, which is evaluated. -/
def afterFourth : Feed :=
  afterRollback.ingested Hashing.sample.toDigests (warnings ["B", "A", "C"] 103 .never)

/-- The second warning has an incident although one completed evaluation has reported it, and the
third one, which the same snapshots have, has none. -/
theorem not_mirrors_afterFourth :
    Run (Feed.Step Hashing.sample.toDigests) (.start (.empty 1))
      [.ingested (warnings ["A"] 100 .never), .committed,
        .ingested (warnings ["A"] 101 .never), .committed,
        .ingested (warnings ["B", "A", "C"] 102 (.at 1)), .committed] afterRollback ∧
    (warnings ["B", "A", "C"] 103 .never).evaluates afterRollback.owners =
      some (warningsReport ["B", "A", "C"] 103) ∧
    ¬ MirrorsAlerts Hashing.sample.toDigests afterRollback.past (warningsReport ["B", "A", "C"] 103)
      afterRollback.session.store afterFourth.session.store ∧
    Found afterFourth.session.store alertRule "ia:1:9250938710a216ea" ∧
    ¬ Found afterFourth.session.store alertRule "ia:1:d0553d2c34da1088" := by
  have hopened : Found afterFourth.session.store alertRule "ia:1:9250938710a216ea" := by
    decide +kernel
  refine ⟨.cons rfl (.cons rfl (.cons rfl (.cons rfl (.cons rfl (.cons rfl (.nil _)))))), rfl,
    fun hmirrors => ?_, hopened, by decide +kernel⟩
  have hdue : ∀ p ∈ (warningsReport ["B", "A", "C"] 103).abouts,
      (warningsReport ["B", "A", "C"] 103).Due Hashing.sample.toDigests afterRollback.past
        afterRollback.session.store p → "ia:1:9250938710a216ea" ≠
          aboutKey Hashing.sample.toDigests (warningsReport ["B", "A", "C"] 103).cfg p := by
    decide +kernel
  obtain ⟨inc, hinc, hlive, hrule, hhash⟩ := hopened
  have hsource : startsWith (alertPrefix Hashing.sample.toDigests
      (warningsReport ["B", "A", "C"] 103).cfg) "ia:1:9250938710a216ea" = true := by decide +kernel
  obtain ⟨p, ⟨hp, hphash⟩, -⟩ := hmirrors.due inc hinc hlive ⟨hrule, _, hhash, hsource⟩
  exact hdue p hp.1 hp (Option.some.inj (hhash.symm.trans hphash))

end Nodeglow.Incidents
