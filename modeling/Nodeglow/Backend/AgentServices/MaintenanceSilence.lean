import Nodeglow.Backend.AgentServices.Reports

/-!
# Maintenance and the incidents of services

While a host is in maintenance, be it by its flag or by a window, the services of its agent should
open no incident. The evaluation reads the flags of the hosts, and no windows. So a report during a
window opens none only if it would open none without a maintenance: if no service is due for which
no incident is open.

## Main results

* `opensNone_iff_held` — exactly when the turns of a report open no incident.
* `silenced_iff` — exactly when a maintenance silences a report.
* `not_silenced_window` — a report during a window.

Source: `backend/services/agent_services.py`, lines 28–30, 205–218 and 258–316;
`backend/services/maintenance.py`, lines 1–20 and 263–271.
-/

namespace Nodeglow.AgentServices

open Incidents Maintenance

variable {env : Env} {a : Agent} {hosts : List PingHost} {threshold : ℕ} {now : ℤ}
  {p p' : Progress} {svc : Entry} {failReports : Option ℤ} {reported : List Json}
  {incidents : Store}

/-- A report opens no incident. -/
def OpensNone (env : Env) (a : Agent) (hosts : List PingHost) (failReports : Option ℤ)
    (reported : List Json) (now : ℤ) (incidents : Store) : Prop :=
  ∀ r, applyServiceReport env a hosts failReports reported now incidents = some r →
    ∀ i ∈ r.2.incidents.rows, i.id ∈ incidents.rows.map Incident.id

/-- A host that represents the agent is in maintenance, by its flag or by a window. -/
def InMaintenance (env : Env) (zoneInfo : String → Zone) (windows : List WindowSpec) (a : Agent)
    (hosts : List PingHost) (now : ℤ) : Prop :=
  ∃ h ∈ agentPingHosts env a hosts, isInMaintenance zoneInfo h now windows = true

/-- While a host that represents the agent is in maintenance, a report opens no incident. -/
def Silenced (env : Env) (zoneInfo : String → Zone) (windows : List WindowSpec) (a : Agent)
    (hosts : List PingHost) (failReports : Option ℤ) (reported : List Json) (now : ℤ)
    (incidents : Store) : Prop :=
  InMaintenance env zoneInfo windows a hosts now →
    OpensNone env a hosts failReports reported now incidents

/-- An open incident has the key of a service. -/
def HasKey (env : Env) (agent : ℕ) (s : Store) (name : String) : Prop :=
  ∃ i ∈ s.rows, i.Has rule (incidentHash env agent name)

/-- An open incident has the key of a service, and still has it after the turns of the services
before. -/
def Held (env : Env) (agent threshold : ℕ) (s : Store) (front : List Entry) (svc : Entry) : Prop :=
  HasKey env agent s svc.name ∧ ∀ e ∈ front, ¬e.Due threshold → e.Recovered →
    incidentHash env agent e.name ≠ incidentHash env agent svc.name

/-! ### One turn -/

theorem map_id_change {f : Incident → Incident} (hf : Keeps f) (s : Store) :
    (s.change f).rows.map Incident.id = s.rows.map Incident.id := by
  rw [Store.change, List.map_map]
  exact List.map_congr_left fun i _ => hf.id i

/-- Resolving the incident of a service frees its key, and no other. -/
theorem hasKey_resolveService {s : Store} {agent : ℕ} {n m : String} :
    HasKey env agent (resolveService env agent n now s) m ↔
      HasKey env agent s m ∧ incidentHash env agent n ≠ incidentHash env agent m := by
  constructor
  · rintro ⟨j, hj, hhas⟩
    obtain ⟨i, hi, rfl⟩ := List.mem_map.mp hj
    split at hhas
    · exact absurd hhas.1 (by simp [Incident.live, Incident.resolve])
    · rename_i hnot
      refine ⟨⟨i, hi, hhas⟩, fun heq => hnot ?_⟩
      rwa [heq]
  · rintro ⟨⟨i, hi, hhas⟩, hne⟩
    refine ⟨i, List.mem_map.mpr ⟨i, hi, if_neg fun hhas' => hne ?_⟩, hhas⟩
    exact Option.some.inj (hhas'.2.2.symm.trans hhas.2.2)

/-- Extending an incident leaves all keys. -/
theorem hasKey_modify_extend {s : Store} {agent id : ℕ} {e : Evaluation} {t : ℚ} {m : String} :
    HasKey env agent (s.modify id (Incident.extend t e)) m ↔ HasKey env agent s m := by
  have hhas : ∀ i : Incident, ∀ k,
      (if i.id = id then Incident.extend t e i else i).Has rule k ↔ i.Has rule k := by
    intro i k
    split
    · exact Iff.rfl
    · exact Iff.rfl
  constructor
  · rintro ⟨j, hj, hj'⟩
    obtain ⟨i, hi, rfl⟩ := List.mem_map.mp hj
    exact ⟨i, hi, (hhas i _).mp hj'⟩
  · rintro ⟨i, hi, hi'⟩
    exact ⟨_, List.mem_map_of_mem hi, (hhas i _).mpr hi'⟩

/-- Under no maintenance, a service that is due has its incident extended if its key is in use, and
one opened otherwise. -/
theorem turn_of_due (hvalid : p.incidents.Valid)
    (hmaintenance : hostInMaintenance env a hosts = false) (hdue : svc.Due threshold)
    (hp : evaluateService env a hosts threshold now p svc = some p') :
    p'.incidents.Valid ∧
      ((HasKey env a.id p.incidents svc.name ∧
          p'.incidents.rows.map Incident.id = p.incidents.rows.map Incident.id ∧
          ∀ m, HasKey env a.id p'.incidents m ↔ HasKey env a.id p.incidents m) ∨
        ¬HasKey env a.id p.incidents svc.name ∧
          p'.incidents.rows.map Incident.id =
            p.incidents.rows.map Incident.id ++ [p.incidents.next]) := by
  rcases evaluateService_cases hp with ⟨-, -, id, notes, hs, -⟩ | ⟨hnot, -⟩ | ⟨hin, -⟩
  · refine ⟨hvalid.findOrCreate hs, ?_⟩
    rcases findOrCreate_cases hs with ⟨i, hi, hhas, -, heq, -⟩ | ⟨hnone, -, heq, -⟩ <;>
      rw [hash_serviceDown] at *
    · rw [heq]
      exact .inl ⟨⟨i, hi, hhas⟩, map_id_change ((keeps_extend _ _).ite _) _,
        fun m => hasKey_modify_extend⟩
    · refine .inr ⟨?_, by rw [heq]; simp [Evaluation.incident]⟩
      rintro ⟨i, hi, hhas⟩
      exact hnone i hi hhas
  · exact absurd hdue hnot
  · exact absurd (hin hdue) (by simp [hmaintenance])

/-- A service that is not due opens nothing. Its key is freed if it runs again. -/
theorem turn_of_not_due (hvalid : p.incidents.Valid) (hdue : ¬svc.Due threshold)
    (hp : evaluateService env a hosts threshold now p svc = some p') :
    p'.incidents.Valid ∧
      p'.incidents.rows.map Incident.id = p.incidents.rows.map Incident.id ∧
      ∀ m, HasKey env a.id p'.incidents m ↔ HasKey env a.id p.incidents m ∧
        (svc.Recovered → incidentHash env a.id svc.name ≠ incidentHash env a.id m) := by
  rcases evaluateService_cases hp with ⟨hdue', -⟩ | ⟨-, hrecovered, heq, -⟩ | ⟨-, hnot, heq, -⟩
  · exact absurd hdue' hdue
  · rw [heq]
    refine ⟨hvalid.change ((keeps_resolve _).ite _), map_id_change ((keeps_resolve _).ite _) _, ?_⟩
    intro m
    rw [hasKey_resolveService]
    simp [hrecovered]
  · rw [heq]
    exact ⟨hvalid, rfl, fun m => (and_iff_left fun h => absurd (hnot h) hdue).symm⟩

/-! ### All turns -/

/-- What holds at each place of a list. -/
theorem forall_split_cons {α : Type*} {P : List α → α → Prop} {x : α} {l : List α} :
    (∀ front b back, x :: l = front ++ b :: back → P front b) ↔
      P [] x ∧ ∀ front b back, l = front ++ b :: back → P (x :: front) b := by
  constructor
  · intro h
    exact ⟨h [] x l rfl, fun front b back hl => h (x :: front) b back (by rw [hl]; rfl)⟩
  · rintro ⟨hx, hl⟩ front b back heq
    cases front with
    | nil =>
      obtain ⟨rfl, -⟩ := List.cons.inj heq
      exact hx
    | cons y front =>
      obtain ⟨rfl, htail⟩ := List.cons.inj heq
      exact hl front b back htail

/-- No incident goes away. -/
theorem map_id_subset_of_turns (hvalid : p.incidents.Valid)
    (hmaintenance : hostInMaintenance env a hosts = false) {todo : List Entry}
    (hp : todo.foldlM (evaluateService env a hosts threshold now) p = some p') :
    p.incidents.rows.map Incident.id ⊆ p'.incidents.rows.map Incident.id := by
  induction todo generalizing p with
  | nil =>
    obtain rfl := Option.some.inj hp
    exact List.Subset.refl _
  | cons svc todo ih =>
    obtain ⟨q, hq, hp⟩ := Option.bind_eq_some_iff.mp hp
    by_cases hdue : svc.Due threshold
    · obtain ⟨hvalid', ⟨-, hids, -⟩ | ⟨-, hids⟩⟩ := turn_of_due hvalid hmaintenance hdue hq
      · exact hids ▸ ih hvalid' hp
      · exact fun id hid => ih hvalid' hp (hids ▸ List.mem_append_left _ hid)
    · obtain ⟨hvalid', hids, -⟩ := turn_of_not_due hvalid hdue hq
      exact hids ▸ ih hvalid' hp

/-- **When the turns of a report open no incident**, without a maintenance: if for every service
that is due an incident is open when its turn comes. -/
theorem opensNone_iff_held (hvalid : p.incidents.Valid)
    (hmaintenance : hostInMaintenance env a hosts = false) {todo : List Entry}
    (hp : todo.foldlM (evaluateService env a hosts threshold now) p = some p') :
    p'.incidents.rows.map Incident.id ⊆ p.incidents.rows.map Incident.id ↔
      ∀ front svc back, todo = front ++ svc :: back → svc.Due threshold →
        Held env a.id threshold p.incidents front svc := by
  induction todo generalizing p with
  | nil =>
    obtain rfl := Option.some.inj hp
    simp
  | cons svc todo ih =>
    obtain ⟨q, hq, hp⟩ := Option.bind_eq_some_iff.mp hp
    rw [forall_split_cons]
    by_cases hdue : svc.Due threshold
    · obtain ⟨hvalid', ⟨hkey, hids, hkeys⟩ | ⟨hkey, hids⟩⟩ :=
        turn_of_due hvalid hmaintenance hdue hq
      · rw [← hids, ih hvalid' hp]
        have hheld : ∀ front e, Held env a.id threshold q.incidents front e ↔
            Held env a.id threshold p.incidents (svc :: front) e := by
          intro front e
          simp [Held, hkeys, hdue]
        simp only [hheld]
        exact (and_iff_right fun _ => ⟨hkey, by simp⟩).symm
      · -- The new incident stays, and its id is a new one.
        refine iff_of_false (fun hsubset => ?_) fun h => hkey (h.1 hdue).1
        have hnew := hsubset (map_id_subset_of_turns hvalid' hmaintenance hp
          (hids ▸ List.mem_append_right _ (List.mem_singleton_self _)))
        obtain ⟨i, hi, hid⟩ := List.mem_map.mp hnew
        exact absurd hid (hvalid.lt i hi).ne
    · obtain ⟨hvalid', hids, hkeys⟩ := turn_of_not_due hvalid hdue hq
      rw [← hids, ih hvalid' hp]
      have hheld : ∀ front e, Held env a.id threshold q.incidents front e ↔
          Held env a.id threshold p.incidents (svc :: front) e := by
        intro front e
        simp [Held, hkeys, hdue, and_assoc]
      simp only [hheld]
      exact (and_iff_right fun h => absurd h hdue).symm

/-! ### Reports -/

theorem map_id_dropped (env : Env) (a : Agent) (now : ℤ) (p : Progress) (names : List String) :
    (names.foldl (resolveUnwatched env a now) p).incidents.rows.map Incident.id =
      p.incidents.rows.map Incident.id := by
  induction names generalizing p with
  | nil => rfl
  | cons n names ih =>
    exact (ih _).trans (map_id_change ((keeps_resolve _).ite _) _)

/-- While a flag is set, a report opens no incident. -/
theorem incidents_of_flag (hmaintenance : hostInMaintenance env a hosts = true) {todo : List Entry}
    (hp : todo.foldlM (evaluateService env a hosts threshold now) p = some p') :
    p'.incidents.rows.map Incident.id = p.incidents.rows.map Incident.id := by
  induction todo generalizing p with
  | nil =>
    obtain rfl := Option.some.inj hp
    rfl
  | cons svc todo ih =>
    obtain ⟨q, hq, hp⟩ := Option.bind_eq_some_iff.mp hp
    rw [ih hp]
    rcases evaluateService_cases hq with ⟨-, hnot, -⟩ | ⟨-, -, heq, -⟩ | ⟨-, -, heq, -⟩
    · exact absurd hmaintenance (by simp [hnot])
    · exact heq ▸ map_id_change ((keeps_resolve _).ite _) _
    · rw [heq]

/-- On a valid table no report raises. -/
theorem exists_turns (hvalid : p.incidents.Valid) (todo : List Entry) :
    ∃ p', todo.foldlM (evaluateService env a hosts threshold now) p = some p' := by
  induction todo generalizing p with
  | nil => exact ⟨p, rfl⟩
  | cons svc todo ih =>
    obtain ⟨q, hq, hvalid'⟩ : ∃ q, evaluateService env a hosts threshold now p svc = some q ∧
        q.incidents.Valid := by
      unfold evaluateService
      split
      · split
        · exact ⟨_, rfl, hvalid⟩
        · obtain ⟨⟨s, id, notes⟩, hs⟩ := hvalid.exists_findOrCreate env.hashing.digest16
            (minutes now) (serviceDown env a hosts svc)
          rw [hs]
          exact ⟨_, rfl, hvalid.findOrCreate hs⟩
      · split
        · exact ⟨_, rfl, hvalid.change ((keeps_resolve _).ite _)⟩
        · exact ⟨_, rfl, hvalid⟩
    obtain ⟨p', hp'⟩ := ih hvalid'
    exact ⟨p', Option.bind_eq_some_iff.mpr ⟨q, hq, hp'⟩⟩

/-- A report opens no incident when its turns open none. -/
theorem opensNone_iff_turns (env : Env) (a : Agent) (hosts : List PingHost)
    (failReports : Option ℤ) (reported : List Json) (now : ℤ) (hvalid : incidents.Valid) :
    ∃ p', (mergeReport env.py a.entries a.watched.names reported now).foldlM
        (evaluateService env a hosts (failThreshold failReports) now) ⟨incidents, [], [], []⟩ =
          some p' ∧
      (OpensNone env a hosts failReports reported now incidents ↔
        p'.incidents.rows.map Incident.id ⊆ incidents.rows.map Incident.id) := by
  obtain ⟨p', hp'⟩ := exists_turns (p := ⟨incidents, [], [], []⟩) hvalid
    (mergeReport env.py a.entries a.watched.names reported now)
  refine ⟨p', hp', ?_⟩
  have happly : applyServiceReport env a hosts failReports reported now incidents =
      some ({ a with states := some (now, ((droppedFrom a.entries a.watched.names).foldl
          (resolveUnwatched env a now) p').entries) },
        (droppedFrom a.entries a.watched.names).foldl (resolveUnwatched env a now) p') := by
    rw [applyServiceReport, hp']
    rfl
  have hids := map_id_dropped env a now p' (droppedFrom a.entries a.watched.names)
  unfold OpensNone
  rw [happly]
  constructor
  · intro h id hid
    rw [← hids] at hid
    obtain ⟨i, hi, rfl⟩ := List.mem_map.mp hid
    exact h _ rfl i hi
  · rintro h r hr i hi
    obtain rfl := Option.some.inj hr
    exact h (hids ▸ List.mem_map_of_mem hi)

/-- **When a maintenance silences a report**: exactly when no host of the agent is in maintenance,
or one of them has its flag set, or for every service that is due an incident is open when its turn
comes. -/
theorem silenced_iff (hvalid : incidents.Valid) (zoneInfo : String → Zone)
    (windows : List WindowSpec) :
    Silenced env zoneInfo windows a hosts failReports reported now incidents ↔
      ¬InMaintenance env zoneInfo windows a hosts now ∨
      (∃ h ∈ agentPingHosts env a hosts, h.maintenance = true) ∨
      ∀ front svc back,
        mergeReport env.py a.entries a.watched.names reported now = front ++ svc :: back →
        svc.Due (failThreshold failReports) →
          Held env a.id (failThreshold failReports) incidents front svc := by
  obtain ⟨p', hp', hopens⟩ := opensNone_iff_turns env a hosts failReports reported now hvalid
  have hflag : (∃ h ∈ agentPingHosts env a hosts, h.maintenance = true) ↔
      hostInMaintenance env a hosts = true := by
    rw [hostInMaintenance, List.any_eq_true]
  rw [Silenced, imp_iff_not_or, hopens, hflag]
  cases hmaintenance : hostInMaintenance env a hosts with
  | true =>
    have hsubset : p'.incidents.rows.map Incident.id ⊆ incidents.rows.map Incident.id :=
      incidents_of_flag hmaintenance hp' ▸ List.Subset.refl _
    simp [hsubset]
  | false =>
    rw [opensNone_iff_held hvalid hmaintenance hp']
    simp

/-! ### A window -/

/-- The local time is UTC. -/
def utc : Zone where
  localDate now := now / (24 * 60 * oneMinute)
  instant day startTime := day * (24 * 60 * oneMinute) + startTime * oneMinute

/-- Every Sunday from 02:00 to 04:00, on all hosts. -/
def sundayWindow : WindowSpec where
  id := 1
  name := "Patching"
  kind := .weekly
  enabled := true
  weekdays := [6]
  startTime := some 120
  durationMinutes := 120
  startsAt := none
  endsAt := none
  tz := "UTC"
  allHosts := true
  hostIds := []

/-- Sunday, 11 October 2026, 03:00. -/
def sunday : ℤ := 1791687600000000

/-- An agent that watches one service, and its host. -/
def web01 : Agent :=
  ⟨7, "web01", some "web01", ⟨["nginx"], List.nodup_singleton "nginx", valid_nginx⟩, none⟩

def web01Host (flag : Bool) : PingHost := ⟨3, "web01", "web01", "agent", flag, none⟩

/-- The report of the service. -/
def nginxStopped : List Json := states [("nginx", "stopped")]

/-- During the window an incident is opened. -/
theorem not_silenced_window :
    ¬Silenced sampleEnv (fun _ => utc) [sundayWindow] web01 [web01Host false] (some 1) nginxStopped
      sunday (.empty 1) := by
  intro h
  have hin : InMaintenance sampleEnv (fun _ => utc) [sundayWindow] web01 [web01Host false]
      sunday := by
    unfold InMaintenance
    decide +kernel
  cases hr : applyServiceReport sampleEnv web01 [web01Host false] (some 1) nginxStopped sunday
      (.empty 1) with
  | none => exact absurd (congrArg Option.isSome hr) (by decide +kernel)
  | some r =>
    have hids : (applyServiceReport sampleEnv web01 [web01Host false] (some 1) nginxStopped sunday
        (.empty 1)).map (fun r => r.2.incidents.rows.map Incident.id) = some [1] := by
      decide +kernel
    rw [hr, Option.map_some, Option.some.injEq] at hids
    have hmem : 1 ∈ r.2.incidents.rows.map Incident.id := hids ▸ List.mem_singleton_self 1
    obtain ⟨i, hi, -⟩ := List.mem_map.mp hmem
    exact absurd (h hin r hr i hi) (by simp [Store.empty])

/-- While the flag is set none is opened, also during the window. -/
theorem silenced_iff_flag :
    Silenced sampleEnv (fun _ => utc) [sundayWindow] web01 [web01Host true] (some 1) nginxStopped
      sunday (.empty 1) :=
  (silenced_iff (valid_empty 1) (fun _ => utc) [sundayWindow]).mpr
    (.inr (.inl (by decide +kernel)))

end Nodeglow.AgentServices
