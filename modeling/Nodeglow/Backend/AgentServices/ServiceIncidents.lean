import Nodeglow.Backend.AgentServices.Reports
import Nodeglow.Foundation.Streak

/-!
# The incidents of services

The services of all agents of a tenant, over any sequence of reports, new watch lists, thresholds,
hosts and their maintenance, and of writes of other code to the incidents. An incident carries a
key, but not the service. So the state also records for which service each incident was opened, and
what the reports told of each service since it is watched.

A report handles one service after the other. As long as the names of the services differ in lower
case, each turn opens or resolves the incident of its own service only.

## Main results

* `incidentHash_inj` — the key tells the agent, and the service up to letter case.
* `Sound.raise`, `Sound.resolve` — opening and resolving the incident of one service.
* `Sound.turns`, `Sound.dropped` — the turns of a report, and the services that are dropped.

Source: `backend/services/agent_services.py`, lines 258–344.
-/

namespace Nodeglow.AgentServices

open Incidents Maintenance

/-! ### The services of a tenant -/

/-- The agents, the hosts, the setting and the incidents of a tenant. -/
structure State where
  agents : ℕ → Agent
  hosts : List PingHost
  failReports : Option ℤ
  incidents : Store
  /-- The agent and the service for which an incident was opened. -/
  owner : ℕ → Option (ℕ × String)
  /-- What the reports told of a service since it is watched, the latest first. -/
  history : ℕ → String → List ServiceState

/-- What happens. Other code writes to incidents of other rules, and may acknowledge or resolve any
of them. -/
inductive Event
  | report (agent : ℕ) (reported : List Json) (now : ℤ)
  | watchList (agent : ℕ) (new : WatchList) (now : ℤ)
  | renamed (agent : ℕ) (name : String) (hostname : Option String)
  | threshold (setting : Option ℤ)
  | pingHosts (hosts : List PingHost)
  | other (w : Write) (hregular : w.Regular)
      (hrule : ∀ now e, w = .evaluated now e → e.rule ≠ rule)

/-- The owners of the incidents after some were opened for services of an agent. -/
def ownedBy (owner : ℕ → Option (ℕ × String)) (agent : ℕ) (raised : List (String × ℕ)) :
    ℕ → Option (ℕ × String) :=
  fun id => (owner id).or ((raised.find? (·.2 = id)).map fun r => (agent, r.1))

/-- The state after a report or a new watch list is committed. -/
def State.commit (s : State) (agent : ℕ) (r : Agent × Progress) : State :=
  { s with
    agents := Function.update s.agents agent r.1
    incidents := r.2.incidents
    owner := ownedBy s.owner agent r.2.raised }

/-- The state that a report tells of a service. -/
def toldState (env : Env) (reported : List Json) (name : String) : ServiceState :=
  stateOf (findReported env.py reported name)

/-- The state after an event. When an evaluation raises, its transaction is rolled back. -/
def Event.apply (env : Env) (s : State) : Event → State
  | report agent reported now =>
    match applyServiceReport env (s.agents agent) s.hosts s.failReports reported now
        s.incidents with
    | some r =>
      { s.commit agent r with
        history := fun a name =>
          if a = agent ∧ name ∈ (s.agents agent).watched.names then
            toldState env reported name :: s.history a name
          else s.history a name }
    | none => s
  | watchList agent new now =>
    { s.commit agent (applyWatchListChange env (s.agents agent) new now s.incidents) with
      history := fun a name => if a = agent ∧ name ∉ new.names then [] else s.history a name }
  | renamed agent name hostname =>
    { s with
      agents := Function.update s.agents agent
        { s.agents agent with name := name, hostname := hostname } }
  | threshold setting => { s with failReports := setting }
  | pingHosts hosts => { s with hosts := hosts }
  | other w _ _ =>
    match w.apply env.hashing.digest16 s.incidents with
    | some incidents => { s with incidents := incidents }
    | none => s

/-- A new tenant, whose agents watch nothing. -/
def State.init (next : ℕ) : State where
  agents id := ⟨id, "", none, .empty, none⟩
  hosts := []
  failReports := none
  incidents := .empty next
  owner _ := none
  history _ _ := []

/-- The streak of failures. Reports that do not tell the state hold it. -/
def failStreak (history : List ServiceState) : ℕ :=
  streak ServiceState.failing (history.filter (· ≠ .unknown))

/-- What an event may do to the incidents of services, by what a report says of a service. -/
structure Lawful (fails runs : List Json → String → Prop) (s : State) (e : Event) (s' : State) :
    Prop where
  opened : ∀ i ∈ s'.incidents.rows, i.rule = rule → i.id ∉ s.incidents.rows.map Incident.id →
    ∃ agent name reported now, e = .report agent reported now ∧
      s'.owner i.id = some (agent, name) ∧ name ∈ (s.agents agent).watched.names ∧
      fails reported name ∧ failThreshold s.failReports ≤ failStreak (s'.history agent name)
  kept : ∀ i ∈ s.incidents.rows, i.rule = rule → i.live = true →
    ∃ agent name, s.owner i.id = some (agent, name) ∧
      (i ∈ s'.incidents.rows ∨
        (∃ reported now, e = .report agent reported now ∧
          (runs reported name ∨ name ∉ (s.agents agent).watched.names)) ∨
        (∃ new now, e = .watchList agent new now ∧ name ∉ new.names) ∨
        ∃ w hregular hrule, e = .other w hregular hrule)

/-- No two names of a new watch list are the same in lower case. -/
def Event.CaseDistinct (env : Env) : Event → Prop
  | watchList _ new _ => (new.names.map env.py.lower).Nodup
  | _ => True

variable {env : Env} {owner owner' owner'' : ℕ → Option (ℕ × String)} {t t' t'' : Store}
  {A B : ℕ → String → Prop} {a : Agent} {hosts : List PingHost} {threshold agent : ℕ} {now : ℤ}
  {p p' : Progress} {svc : Entry} {name : String}

/-! ### Keys -/

/-- The key tells the agent, and the service up to letter case. -/
theorem incidentHash_inj {a b : ℕ} {n m : String} :
    incidentHash env a n = incidentHash env b m ↔ a = b ∧ env.py.lower n = env.py.lower m := by
  have hcolon : ∀ k : ℕ, ':' ∉ (toString k).toList := fun k hk =>
    absurd (isDigit_of_mem_toString hk) (by decide)
  have htext : ∀ k x, (keyText env.py k x).toList =
      "agent:".toList ++ ((toString k).toList ++ ':' :: ("service:".toList ++
        (env.py.lower x).toList)) := by
    intro k x
    simp [keyText, String.toList_append]
  constructor
  · intro h
    have hkey := congrArg String.toList (env.hashing.injective16 h)
    rw [htext, htext, List.append_cancel_left_eq,
      Text.append_cons_inj (hcolon a) (hcolon b), List.append_cancel_left_eq] at hkey
    exact ⟨toString_injective hkey.1, String.toList_injective hkey.2⟩
  · rintro ⟨rfl, hlower⟩
    rw [incidentHash, incidentHash, keyText, keyText, hlower]

/-! ### Open incidents belong to services -/

/-- Each open incident of a service belongs to one that has an incident (`A`). -/
structure Sound (env : Env) (t : Store) (owner : ℕ → Option (ℕ × String))
    (A : ℕ → String → Prop) : Prop where
  valid : t.Valid
  owned : ∀ i ∈ t.rows, i.rule = rule → i.live = true → ∃ b m, owner i.id = some (b, m) ∧
    i.hostIdsHash = some (incidentHash env b m) ∧ A b m
  fresh : ∀ id, t.next ≤ id → owner id = none

/-- What a part of an event does to the incidents of services of an agent. -/
structure Turns (agent : ℕ) (opens closes : String → Prop) (t : Store)
    (owner : ℕ → Option (ℕ × String)) (t' : Store) (owner' : ℕ → Option (ℕ × String)) : Prop where
  opened : ∀ i ∈ t'.rows, i.rule = rule → (∃ j ∈ t.rows, j.id = i.id ∧ j.rule = rule) ∨
    ∃ n, owner' i.id = some (agent, n) ∧ opens n
  kept : ∀ i ∈ t.rows, i.rule = rule → i.live = true → ∃ x, owner i.id = some x ∧
    (i ∈ t'.rows ∨ x.1 = agent ∧ closes x.2)
  owner : ∀ id x, owner id = some x → owner' id = some x

theorem Sound.mono (h : Sound env t owner A) (hAB : ∀ b m, A b m → B b m) :
    Sound env t owner B where
  valid := h.valid
  owned i hi hrule hlive := by
    obtain ⟨b, m, howner, hhash, hA⟩ := h.owned i hi hrule hlive
    exact ⟨b, m, howner, hhash, hAB b m hA⟩
  fresh := h.fresh

namespace Turns

variable {opens opens' closes closes' : String → Prop}

theorem refl (h : Sound env t owner A) : Turns agent opens closes t owner t owner where
  opened i hi hrule := .inl ⟨i, hi, rfl, hrule⟩
  kept i hi hrule hlive := by
    obtain ⟨b, m, howner, -, -⟩ := h.owned i hi hrule hlive
    exact ⟨(b, m), howner, .inl hi⟩
  owner _ _ h := h

theorem mono (h : Turns agent opens closes t owner t' owner') (hopens : ∀ n, opens n → opens' n)
    (hcloses : ∀ n, closes n → closes' n) : Turns agent opens' closes' t owner t' owner' where
  opened i hi hrule := (h.opened i hi hrule).imp_right fun ⟨n, howner, hn⟩ =>
    ⟨n, howner, hopens n hn⟩
  kept i hi hrule hlive := by
    obtain ⟨x, howner, hx⟩ := h.kept i hi hrule hlive
    exact ⟨x, howner, hx.imp_right fun hx => ⟨hx.1, hcloses _ hx.2⟩⟩
  owner := h.owner

theorem trans (h : Turns agent opens closes t owner t' owner')
    (h' : Turns agent opens closes t' owner' t'' owner'') :
    Turns agent opens closes t owner t'' owner'' where
  opened i hi hrule := by
    rcases h'.opened i hi hrule with ⟨j, hj, hid, hjrule⟩ | hnew
    · rcases h.opened j hj hjrule with ⟨k, hk, hkid, hkrule⟩ | ⟨n, howner, hn⟩
      · exact .inl ⟨k, hk, hkid.trans hid, hkrule⟩
      · exact .inr ⟨n, hid ▸ h'.owner _ _ howner, hn⟩
    · exact .inr hnew
  kept i hi hrule hlive := by
    obtain ⟨x, howner, hmem | hclosed⟩ := h.kept i hi hrule hlive
    · obtain ⟨y, howner', hy⟩ := h'.kept i hmem hrule hlive
      obtain rfl := Option.some.inj ((h.owner _ _ howner).symm.trans howner')
      exact ⟨x, howner, hy⟩
    · exact ⟨x, howner, .inr hclosed⟩
  owner id x hx := h'.owner id x (h.owner id x hx)

end Turns

/-! ### Opening -/

theorem ownedBy_nil (owner : ℕ → Option (ℕ × String)) (agent : ℕ) :
    ownedBy owner agent [] = owner := by
  funext id
  simp [ownedBy]

theorem ownedBy_concat (owner : ℕ → Option (ℕ × String)) (agent : ℕ) (raised : List (String × ℕ))
    (n : String) (id : ℕ) :
    ownedBy owner agent (raised ++ [(n, id)]) =
      ownedBy (ownedBy owner agent raised) agent [(n, id)] := by
  funext k
  simp only [ownedBy, List.find?_append, Option.map_or, Option.or_assoc]

/-- The incident of a service is opened, and not another one extended, when no other service with
the same name in lower case has one. -/
theorem Sound.raise (h : Sound env t owner A) {id : ℕ} {notes : List Note}
    (hfree : ∀ m, A a.id m → env.py.lower m ≠ env.py.lower svc.name)
    (hs : findOrCreate env.hashing.digest16 (minutes now) (serviceDown env a hosts svc) t =
      some (t', id, notes)) :
    Sound env t' (ownedBy owner a.id [(svc.name, id)])
        (fun b m => A b m ∨ (b = a.id ∧ m = svc.name)) ∧
      Turns a.id (· = svc.name) (fun _ => False) t owner t'
        (ownedBy owner a.id [(svc.name, id)]) := by
  have hvalid := h.valid.findOrCreate hs
  rcases findOrCreate_cases hs with ⟨i, hi, ⟨hlive, hrule, hhash⟩, -⟩ | ⟨-, rfl, rfl, -⟩
  · -- An open incident with this key would belong to a service with the same name in lower case.
    obtain ⟨b, m, -, hkey, hA⟩ := h.owned i hi hrule hlive
    rw [hash_serviceDown, hkey, Option.some.injEq, incidentHash_inj] at hhash
    obtain ⟨rfl, hlower⟩ := hhash
    exact absurd hlower (hfree m hA)
  · have hnew : ownedBy owner a.id [(svc.name, t.next)] t.next = some (a.id, svc.name) := by
      simp [ownedBy, h.fresh t.next le_rfl]
    have hold : ∀ k x, owner k = some x →
        ownedBy owner a.id [(svc.name, t.next)] k = some x := by
      intro k x hk
      simp [ownedBy, hk]
    refine ⟨⟨hvalid, ?_, ?_⟩, ⟨?_, ?_, hold⟩⟩
    · intro i hi hrule hlive
      rcases List.mem_append.mp hi with hi | hi
      · obtain ⟨b, m, howner, hkey, hA⟩ := h.owned i hi hrule hlive
        exact ⟨b, m, hold _ _ howner, hkey, .inl hA⟩
      · obtain rfl := List.mem_singleton.mp hi
        exact ⟨a.id, svc.name, hnew, congrArg some hash_serviceDown, .inr ⟨rfl, rfl⟩⟩
    · intro k hk
      have hne : t.next ≠ k := Nat.ne_of_lt hk
      simp [ownedBy, h.fresh k (Nat.le_of_succ_le hk), hne]
    · intro i hi hrule
      rcases List.mem_append.mp hi with hi | hi
      · exact .inl ⟨i, hi, rfl, hrule⟩
      · obtain rfl := List.mem_singleton.mp hi
        exact .inr ⟨svc.name, hnew, rfl⟩
    · intro i hi hrule hlive
      obtain ⟨b, m, howner, -, -⟩ := h.owned i hi hrule hlive
      exact ⟨(b, m), howner, .inl (List.mem_append_left _ hi)⟩

/-! ### Resolving -/

/-- The incident of a service is resolved, and no other one, when no other service with the same
name in lower case has one. -/
theorem Sound.resolve (h : Sound env t owner A) {n : String}
    (hone : ∀ m, A agent m → env.py.lower m = env.py.lower n → m = n) :
    Sound env (resolveService env agent n now t) owner
        (fun b m => A b m ∧ ¬(b = agent ∧ m = n)) ∧
      Turns agent (fun _ => False) (· = n) t owner (resolveService env agent n now t) owner := by
  have hrow : ∀ j ∈ (resolveService env agent n now t).rows, ∃ i ∈ t.rows,
      j.id = i.id ∧ j.rule = i.rule ∧ (j.live = true → j = i ∧
        ¬i.Has rule (incidentHash env agent n)) := by
    intro j hj
    obtain ⟨i, hi, rfl⟩ := List.mem_map.mp hj
    split
    · exact ⟨i, hi, rfl, rfl, fun hlive => absurd hlive (by simp [Incident.live, Incident.resolve])⟩
    · rename_i hhas
      exact ⟨i, hi, rfl, rfl, fun _ => ⟨rfl, hhas⟩⟩
  refine ⟨⟨h.valid.change ((keeps_resolve _).ite _), ?_, h.fresh⟩, ⟨?_, ?_, fun _ _ hx => hx⟩⟩
  · intro j hj hrule hlive
    obtain ⟨i, hi, -, -, heq⟩ := hrow j hj
    obtain ⟨rfl, hhas⟩ := heq hlive
    obtain ⟨b, m, howner, hkey, hA⟩ := h.owned j hi hrule hlive
    refine ⟨b, m, howner, hkey, hA, ?_⟩
    rintro ⟨rfl, rfl⟩
    exact hhas ⟨hlive, hrule, hkey⟩
  · intro j hj hrule
    obtain ⟨i, hi, hid, hirule, -⟩ := hrow j hj
    exact .inl ⟨i, hi, hid.symm, hirule.symm.trans hrule⟩
  · intro i hi hrule hlive
    obtain ⟨b, m, howner, hkey, hA⟩ := h.owned i hi hrule hlive
    refine ⟨(b, m), howner, ?_⟩
    by_cases hhas : i.Has rule (incidentHash env agent n)
    · -- The key belongs to this service.
      have hhash := hhas.2.2
      rw [hkey, Option.some.injEq, incidentHash_inj] at hhash
      obtain ⟨rfl, hlower⟩ := hhash
      exact .inr ⟨rfl, hone m hA hlower⟩
    · exact .inl (List.mem_map.mpr ⟨i, hi, if_neg hhas⟩)

/-! ### A report -/

/-- The services with an incident, by the entries of an agent. -/
def Alerted (entries : List Entry) (name : String) : Prop :=
  ∃ svc ∈ entries, svc.name = name ∧ svc.alerted = true

/-- The services of all agents with an incident, where one agent has some entries. -/
def AlertedWith (agents : ℕ → Agent) (agent : ℕ) (entries : List Entry) (b : ℕ) (m : String) :
    Prop :=
  if b = agent then Alerted entries m else Alerted (agents b).entries m

/-- The names and the counts of entries. -/
def counts (entries : List Entry) : List (String × ℕ) := entries.map fun e => (e.name, e.failCount)

theorem names_eq_of_counts {entries entries' : List Entry} (h : counts entries = counts entries') :
    entries.map Entry.name = entries'.map Entry.name := by
  have hnames := congrArg (List.map Prod.fst) h
  simpa [counts, Function.comp_def] using hnames

/-- Of entries with different names in lower case, a name has one. -/
theorem alerted_middle {front back : List Entry} {name : String} :
    Alerted (front ++ svc :: back) name ↔
      (name = svc.name ∧ svc.alerted = true) ∨ Alerted (front ++ back) name := by
  unfold Alerted
  constructor
  · rintro ⟨e, he, rfl, halerted⟩
    rw [List.mem_append, List.mem_cons, or_left_comm] at he
    rcases he with rfl | he
    · exact .inl ⟨rfl, halerted⟩
    · exact .inr ⟨e, List.mem_append.mpr he, rfl, halerted⟩
  · rintro (⟨rfl, halerted⟩ | ⟨e, he, rfl, halerted⟩)
    · exact ⟨svc, by simp, rfl, halerted⟩
    · refine ⟨e, ?_, rfl, halerted⟩
      rw [List.mem_append, List.mem_cons, or_left_comm]
      exact .inr (List.mem_append.mp he)

/-- The incidents of the services, with one entry of the agent apart. -/
theorem alertedWith_middle {agents : ℕ → Agent} {agent b : ℕ} {front back : List Entry}
    {name : String} :
    AlertedWith agents agent (front ++ svc :: back) b name ↔
      (b = agent ∧ name = svc.name ∧ svc.alerted = true) ∨
        AlertedWith agents agent (front ++ back) b name := by
  unfold AlertedWith
  split
  next hb => simp [alerted_middle, hb]
  next hb => simp [hb]

/-- No other service with this name in lower case is watched. -/
theorem lower_ne_of_nodup {agents : ℕ → Agent} {agent : ℕ} {front back : List Entry} {name : String}
    (h : ((front ++ svc :: back).map fun e => env.py.lower e.name).Nodup)
    (hname : AlertedWith agents agent (front ++ back) agent name) :
    env.py.lower name ≠ env.py.lower svc.name := by
  rw [AlertedWith, if_pos rfl] at hname
  obtain ⟨e, he, rfl, -⟩ := hname
  intro heq
  rw [List.map_append, List.map_cons, List.nodup_middle, List.nodup_cons] at h
  refine h.1 (heq ▸ ?_)
  rw [← List.map_append]
  exact List.mem_map_of_mem he

/-- One turn of the evaluation. -/
theorem Sound.turn {agents : ℕ → Agent} {back : List Entry}
    (h : Sound env p.incidents (ownedBy owner a.id p.raised)
      (AlertedWith agents a.id (p.entries ++ svc :: back)))
    (hnodup : ((p.entries ++ svc :: back).map fun e => env.py.lower e.name).Nodup)
    (hp : evaluateService env a hosts threshold now p svc = some p') :
    counts (p'.entries ++ back) = counts (p.entries ++ svc :: back) ∧
      Sound env p'.incidents (ownedBy owner a.id p'.raised)
        (AlertedWith agents a.id (p'.entries ++ back)) ∧
      Turns a.id (fun n => n = svc.name ∧ svc.Due threshold)
        (fun n => n = svc.name ∧ svc.Recovered) p.incidents (ownedBy owner a.id p.raised)
        p'.incidents (ownedBy owner a.id p'.raised) := by
  rcases evaluateService_cases hp with ⟨hdue, -, id, notes, hs, hentries, hraised⟩ |
    ⟨-, hrecovered, hincidents, hentries, hraised⟩ | ⟨-, -, hincidents, hentries, hraised⟩
  · have hfree : ∀ m, AlertedWith agents a.id (p.entries ++ svc :: back) a.id m →
        env.py.lower m ≠ env.py.lower svc.name := by
      intro m hm
      rcases alertedWith_middle.mp hm with ⟨-, -, halerted⟩ | hm
      · exact absurd halerted (by simp [hdue.2])
      · exact lower_ne_of_nodup hnodup hm
    obtain ⟨hsound, hturns⟩ := h.raise hfree hs
    rw [hraised, ownedBy_concat, hentries, List.append_assoc, List.singleton_append]
    refine ⟨by simp [counts], hsound.mono ?_, hturns.mono ?_ fun _ => False.elim⟩
    · rintro b m (hm | ⟨rfl, rfl⟩)
      · rcases alertedWith_middle.mp hm with ⟨-, -, halerted⟩ | hm
        · exact absurd halerted (by simp [hdue.2])
        · exact alertedWith_middle.mpr (.inr hm)
      · exact alertedWith_middle.mpr (.inl ⟨rfl, rfl, rfl⟩)
    · rintro n rfl
      exact ⟨rfl, hdue⟩
  · have hone : ∀ m, AlertedWith agents a.id (p.entries ++ svc :: back) a.id m →
        env.py.lower m = env.py.lower svc.name → m = svc.name := by
      intro m hm hlower
      rcases alertedWith_middle.mp hm with ⟨-, rfl, -⟩ | hm
      · rfl
      · exact absurd hlower (lower_ne_of_nodup hnodup hm)
    obtain ⟨hsound, hturns⟩ := h.resolve hone
    rw [hraised, hentries, hincidents, List.append_assoc, List.singleton_append]
    refine ⟨by simp [counts], hsound.mono ?_, hturns.mono (fun _ => False.elim) ?_⟩
    · rintro b m ⟨hm, hne⟩
      rcases alertedWith_middle.mp hm with ⟨rfl, rfl, -⟩ | hm
      · exact absurd ⟨rfl, rfl⟩ hne
      · exact alertedWith_middle.mpr (.inr hm)
    · rintro n rfl
      exact ⟨rfl, hrecovered⟩
  · rw [hraised, hentries, hincidents, List.append_assoc, List.singleton_append]
    exact ⟨rfl, h, .refl h⟩

/-- All turns of the evaluation. -/
theorem Sound.turns {agents : ℕ → Agent} {todo : List Entry}
    (h : Sound env p.incidents (ownedBy owner a.id p.raised)
      (AlertedWith agents a.id (p.entries ++ todo)))
    (hnodup : ((p.entries ++ todo).map fun e => env.py.lower e.name).Nodup)
    (hp : todo.foldlM (evaluateService env a hosts threshold now) p = some p') :
    counts p'.entries = counts (p.entries ++ todo) ∧
      Sound env p'.incidents (ownedBy owner a.id p'.raised)
        (AlertedWith agents a.id p'.entries) ∧
      Turns a.id (fun n => ∃ svc ∈ todo, n = svc.name ∧ svc.Due threshold)
        (fun n => ∃ svc ∈ todo, n = svc.name ∧ svc.Recovered) p.incidents
        (ownedBy owner a.id p.raised) p'.incidents (ownedBy owner a.id p'.raised) := by
  induction todo generalizing p with
  | nil =>
    obtain rfl := Option.some.inj hp
    rw [List.append_nil] at h ⊢
    exact ⟨rfl, h, .refl h⟩
  | cons svc todo ih =>
    obtain ⟨q, hq, hp⟩ := Option.bind_eq_some_iff.mp hp
    obtain ⟨hcounts, hsound, hturns⟩ := h.turn hnodup hq
    have hlower : (q.entries ++ todo).map (fun e => env.py.lower e.name) =
        (p.entries ++ svc :: todo).map fun e => env.py.lower e.name := by
      simpa [Function.comp_def] using congrArg (List.map env.py.lower) (names_eq_of_counts hcounts)
    obtain ⟨hcounts', hsound', hturns'⟩ := ih hsound (hlower ▸ hnodup) hp
    refine ⟨hcounts'.trans hcounts, hsound', .trans (hturns.mono ?_ ?_) (hturns'.mono ?_ ?_)⟩
    · exact fun n hn => ⟨svc, List.mem_cons_self, hn⟩
    · exact fun n hn => ⟨svc, List.mem_cons_self, hn⟩
    · exact fun n ⟨e, he, hn⟩ => ⟨e, List.mem_cons_of_mem _ he, hn⟩
    · exact fun n ⟨e, he, hn⟩ => ⟨e, List.mem_cons_of_mem _ he, hn⟩

/-! ### Services that are no longer watched -/

/-- The incidents of the services that are dropped. -/
theorem Sound.dropped (now : ℤ) (names : List String)
    (h : Sound env p.incidents owner A)
    (hone : ∀ n ∈ names, ∀ m, A a.id m → env.py.lower m = env.py.lower n → m = n) :
    Sound env (names.foldl (resolveUnwatched env a now) p).incidents owner
        (fun b m => A b m ∧ ¬(b = a.id ∧ m ∈ names)) ∧
      Turns a.id (fun _ => False) (· ∈ names) p.incidents owner
        (names.foldl (resolveUnwatched env a now) p).incidents owner := by
  induction names generalizing p A with
  | nil => exact ⟨h.mono fun b m hA => ⟨hA, by simp⟩, .refl h⟩
  | cons n names ih =>
    obtain ⟨hn, hnames⟩ := List.forall_mem_cons.mp hone
    obtain ⟨hsound, hturns⟩ := h.resolve hn
    obtain ⟨hsound', hturns'⟩ := ih (p := resolveUnwatched env a now p n) hsound
      fun n' hn' m hm => hnames n' hn' m hm.1
    refine ⟨hsound'.mono ?_, .trans (hturns.mono (fun _ => id) ?_) (hturns'.mono (fun _ => id) ?_)⟩
    · rintro b m ⟨⟨hA, hne⟩, hnot⟩
      refine ⟨hA, ?_⟩
      rintro ⟨rfl, hm⟩
      rcases List.mem_cons.mp hm with rfl | hm
      · exact hne ⟨rfl, rfl⟩
      · exact hnot ⟨rfl, hm⟩
    · rintro m rfl
      exact List.mem_cons_self
    · exact fun m hm => List.mem_cons_of_mem _ hm

@[simp]
theorem raised_dropped (names : List String) :
    (names.foldl (resolveUnwatched env a now) p).raised = p.raised := by
  induction names generalizing p with
  | nil => rfl
  | cons n names ih => exact ih

end Nodeglow.AgentServices
