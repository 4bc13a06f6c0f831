import Nodeglow.Backend.AgentServices.ServiceIncidents
import Nodeglow.Foundation.Run

/-!
# Incidents of services open and close on evidence

As long as no watch list has two names that are the same in lower case, an incident is opened only
by a report of its agent in which its service is watched and does not run, once the streak of
failures has reached the threshold, and it is resolved only by a report in which its service runs,
or when the service is no longer watched. No report about another service reaches it.

A report is read by the name of a service or, if it has none, up to letter case. When it does not
tell the state of a service at all, the streak is held, and may still be found to have reached the
threshold, after this was lowered or a maintenance has ended.

## Main results

* `failCount_mergeEntry` — the count of an entry is the streak.
* `Inv.apply` — every event keeps the invariant, and is lawful.
* `incidents_on_evidence` — every event of every run is lawful.
* `not_lawfulByName` — where a stricter reading fails.

Source: `backend/services/agent_services.py`, lines 146–344.
-/

namespace Nodeglow.AgentServices

open Incidents Maintenance

variable {env : Env} {owner : ℕ → Option (ℕ × String)} {t t' : Store} {A : ℕ → String → Prop}
  {a : Agent} {agent : ℕ} {now : ℤ} {svc : Entry} {name : String}

/-! ### Merging -/

section Merge

variable {previous : List Entry} {reported : List Json} {history : List ServiceState}

theorem find?_reverse_of_mem (hnodup : (previous.map Entry.name).Nodup) (hmem : svc ∈ previous) :
    previous.reverse.find? (·.name = svc.name) = some svc := by
  cases hfound : previous.reverse.find? (·.name = svc.name) with
  | none => simpa using List.find?_eq_none.mp hfound svc (by simpa using hmem)
  | some found =>
    have hname : found.name = svc.name := by simpa using List.find?_some hfound
    have hfoundmem : found ∈ previous := by simpa using List.mem_of_find?_eq_some hfound
    rw [List.inj_on_of_nodup_map hnodup hfoundmem hmem hname]

/-- The count of an entry goes on as the streak does. -/
theorem failCount_mergeEntry
    (hprev : ((previous.reverse.find? (·.name = name)).map Entry.failCount).getD 0 =
      failStreak history) :
    (mergeEntry env.py previous reported now name).failCount =
      failStreak (toldState env reported name :: history) := by
  simp only [mergeEntry, hprev, toldState]
  cases stateOf (findReported env.py reported name) <;>
    simp [failStreak, streak_cons, ServiceState.failing]

theorem one_le_failThreshold (setting : Option ℤ) : 1 ≤ failThreshold setting := by
  unfold failThreshold
  omega

/-- A service that runs has no streak. -/
theorem not_running_of_due {setting : Option ℤ}
    (h : (mergeEntry env.py previous reported now name).Due (failThreshold setting)) :
    toldState env reported name ≠ .running := by
  intro hrunning
  have hzero : (mergeEntry env.py previous reported now name).failCount = 0 := by
    simp only [toldState] at hrunning
    simp [mergeEntry, hrunning]
  have hpos := (one_le_failThreshold setting).trans h.1
  omega

end Merge

theorem entries_applyWatchListChange (a : Agent) (new : WatchList) (now : ℤ) (incidents : Store) :
    (applyWatchListChange env a new now incidents).1.entries =
      a.entries.filter fun svc => svc.name ∈ new.names := by
  unfold applyWatchListChange Agent.entries
  cases a.states <;> rfl

/-! ### Every event is lawful -/

/-- What holds of each agent in every state that is reached: its entries are of services that are
watched, and count the streaks. -/
structure AgentInv (env : Env) (agent : ℕ) (a : Agent) (history : String → List ServiceState) :
    Prop where
  id : a.id = agent
  distinct : (a.watched.names.map env.py.lower).Nodup
  watched : ∀ e ∈ a.entries, e.name ∈ a.watched.names
  nodup : (a.entries.map Entry.name).Nodup
  counted : ∀ e ∈ a.entries, e.failCount = failStreak (history e.name)
  untold : ∀ n, n ∉ a.entries.map Entry.name → history n = []

/-- What holds in every state that is reached. -/
structure Inv (env : Env) (s : State) : Prop where
  agent : ∀ b, AgentInv env b (s.agents b) (s.history b)
  sound : Sound env s.incidents s.owner fun b => Alerted (s.agents b).entries

/-- What a report says of a service, by its name or, if there is none, up to letter case. -/
def LawfulByReport (env : Env) : State → Event → State → Prop :=
  Lawful (fun reported name => toldState env reported name ≠ .running)
    (fun reported name => toldState env reported name = .running)

namespace AgentInv

variable {history : String → List ServiceState} {reported : List Json}

theorem init (env : Env) (agent : ℕ) :
    AgentInv env agent ((State.init 0).agents agent) fun _ => [] where
  id := rfl
  distinct := List.nodup_nil
  watched e he := by simp [State.init, Agent.entries] at he
  nodup := List.nodup_nil
  counted e he := by simp [State.init, Agent.entries] at he
  untold _ _ := rfl

/-- The count of the entry from before. -/
theorem prevCount (h : AgentInv env agent a history) (n : String) :
    ((a.entries.reverse.find? (·.name = n)).map Entry.failCount).getD 0 =
      failStreak (history n) := by
  cases hfound : a.entries.reverse.find? (·.name = n) with
  | none =>
    have hnot : n ∉ a.entries.map Entry.name := by
      rintro hmem
      obtain ⟨e, he, rfl⟩ := List.mem_map.mp hmem
      simpa using List.find?_eq_none.mp hfound e (by simpa using he)
    rw [h.untold n hnot]
    rfl
  | some e =>
    have hname : e.name = n := by simpa using List.find?_some hfound
    have he : e ∈ a.entries := by simpa using List.mem_of_find?_eq_some hfound
    simpa [hname] using h.counted e he

/-- The names that are watched differ in lower case. -/
theorem eq_of_lower (h : AgentInv env agent a history) {n m : String}
    (hn : n ∈ a.watched.names) (hm : m ∈ a.watched.names)
    (hlower : env.py.lower n = env.py.lower m) : n = m :=
  List.inj_on_of_nodup_map h.distinct hn hm hlower

/-- Nothing is dropped by a report: a new watch list has dropped it before. -/
theorem droppedFrom_watched (h : AgentInv env agent a history) :
    droppedFrom a.entries a.watched.names = [] := by
  rw [droppedFrom, List.map_eq_nil_iff, List.filter_eq_nil_iff]
  intro e he
  simp [h.watched e he]

/-- A service with an incident still has one when a report is merged. -/
theorem alerted_mergeReport (h : AgentInv env agent a history) (halerted : Alerted a.entries name) :
    Alerted (mergeReport env.py a.entries a.watched.names reported now) name := by
  obtain ⟨e, he, rfl, halerted⟩ := halerted
  refine ⟨_, List.mem_map_of_mem (h.watched e he), rfl, ?_⟩
  simp [mergeEntry, find?_reverse_of_mem h.nodup he, halerted]

/-- The entries after a report. -/
theorem report (h : AgentInv env agent a history) {entries : List Entry}
    (hcounts : counts entries =
      counts (mergeReport env.py a.entries a.watched.names reported now)) :
    AgentInv env agent { a with states := some (now, entries) } fun n =>
      if n ∈ a.watched.names then toldState env reported n :: history n else history n := by
  have hnames : entries.map Entry.name = a.watched.names := by
    rw [names_eq_of_counts hcounts]
    simp [mergeReport, mergeEntry, Function.comp_def]
  have hmem : ∀ e ∈ entries, e.name ∈ a.watched.names := fun e he =>
    hnames ▸ List.mem_map_of_mem he
  refine ⟨h.id, h.distinct, hmem, hnames ▸ a.watched.nodup, fun e he => ?_, fun n hn => ?_⟩
  · have hcount : (e.name, e.failCount) ∈
        counts (mergeReport env.py a.entries a.watched.names reported now) :=
      hcounts ▸ List.mem_map_of_mem he
    obtain ⟨svc, hsvc, heq⟩ := List.mem_map.mp hcount
    obtain ⟨n, hn, rfl⟩ := List.mem_map.mp hsvc
    obtain ⟨hname, hfail⟩ := Prod.mk.inj heq
    rw [if_pos (hmem e he), ← hname, ← hfail]
    exact failCount_mergeEntry (h.prevCount n)
  · have hnot : n ∉ a.watched.names := hnames ▸ hn
    rw [if_neg hnot]
    refine h.untold n fun hold => hnot ?_
    obtain ⟨e, he, rfl⟩ := List.mem_map.mp hold
    exact h.watched e he

/-- The entries after a new watch list. -/
theorem watchList (h : AgentInv env agent a history) {new : WatchList}
    (hnew : (new.names.map env.py.lower).Nodup) (incidents : Store) :
    AgentInv env agent (applyWatchListChange env a new now incidents).1 fun n =>
      if n ∉ new.names then [] else history n := by
  have hmem : ∀ e ∈ a.entries.filter fun svc => decide (svc.name ∈ new.names),
      e ∈ a.entries ∧ e.name ∈ new.names := fun e he => by simpa using List.mem_filter.mp he
  refine ⟨h.id, hnew, ?_, ?_, ?_, ?_⟩ <;> rw [entries_applyWatchListChange]
  · exact fun e he => (hmem e he).2
  · exact h.nodup.sublist (List.filter_sublist.map _)
  · intro e he
    rw [if_neg (not_not.mpr (hmem e he).2)]
    exact h.counted e (hmem e he).1
  · intro n hn
    split
    · rfl
    · rename_i hkeep
      refine h.untold n fun hold => hn ?_
      obtain ⟨e, he, rfl⟩ := List.mem_map.mp hold
      exact List.mem_map_of_mem (List.mem_filter.mpr ⟨he, by simpa using hkeep⟩)

end AgentInv

variable {s s' : State} {reported : List Json} {new : WatchList}

theorem inv_init (env : Env) (next : ℕ) : Inv env (State.init next) where
  agent := AgentInv.init env
  sound := ⟨valid_empty next, by simp [State.init, Store.empty], fun _ _ => rfl⟩

/-- What a report does: its turns. -/
theorem Inv.exists_progress (h : Inv env s) {r : Agent × Progress}
    (hr : applyServiceReport env (s.agents agent) s.hosts s.failReports reported now s.incidents =
      some r) :
    ∃ p : Progress, r = ({ s.agents agent with states := some (now, p.entries) }, p) ∧
      counts p.entries = counts (mergeReport env.py (s.agents agent).entries
        (s.agents agent).watched.names reported now) ∧
      Sound env p.incidents (ownedBy s.owner agent p.raised)
        (AlertedWith s.agents agent p.entries) ∧
      Turns agent
        (fun n => n ∈ (s.agents agent).watched.names ∧ toldState env reported n ≠ .running ∧
          failThreshold s.failReports ≤
            failStreak (toldState env reported n :: s.history agent n))
        (fun n => toldState env reported n = .running)
        s.incidents s.owner p.incidents (ownedBy s.owner agent p.raised) := by
  have hagent := h.agent agent
  obtain ⟨p, hp, hr⟩ := Option.bind_eq_some_iff.mp hr
  rw [hagent.droppedFrom_watched] at hr
  have hstart : Sound env s.incidents (ownedBy s.owner (s.agents agent).id [])
      (AlertedWith s.agents (s.agents agent).id ([] ++ mergeReport env.py (s.agents agent).entries
        (s.agents agent).watched.names reported now)) := by
    rw [ownedBy_nil, hagent.id]
    refine h.sound.mono fun b m hm => ?_
    unfold AlertedWith
    split
    · rename_i hb
      subst hb
      exact hagent.alerted_mergeReport hm
    · exact hm
  obtain ⟨hcounts, hsound, hturns⟩ := Sound.turns (p := ⟨s.incidents, [], [], []⟩) hstart
    (by simpa [mergeReport, mergeEntry, Function.comp_def] using hagent.distinct) hp
  rw [hagent.id] at hsound hturns
  rw [ownedBy_nil] at hturns
  refine ⟨p, (Option.some.inj hr).symm, hcounts, hsound, hturns.mono ?_ ?_⟩
  · rintro n ⟨svc, hsvc, rfl, hdue⟩
    obtain ⟨n, hn, rfl⟩ := List.mem_map.mp hsvc
    exact ⟨hn, not_running_of_due hdue,
      hdue.1.trans_eq (failCount_mergeEntry (hagent.prevCount n))⟩
  · rintro n ⟨svc, hsvc, rfl, hrecovered⟩
    obtain ⟨n, hn, rfl⟩ := List.mem_map.mp hsvc
    exact hrecovered.1

/-- A report keeps the invariant, and is lawful. -/
theorem Inv.report (h : Inv env s) :
    Inv env (Event.apply env s (.report agent reported now)) ∧
      LawfulByReport env s (.report agent reported now)
        (Event.apply env s (.report agent reported now)) := by
  cases hr : applyServiceReport env (s.agents agent) s.hosts s.failReports reported now
      s.incidents with
  | none =>
    simp only [Event.apply, hr]
    refine ⟨h, fun i hi _ hnew => absurd (List.mem_map_of_mem hi) hnew, fun i hi hrule hlive => ?_⟩
    obtain ⟨b, n, howner, -, -⟩ := h.sound.owned i hi hrule hlive
    exact ⟨b, n, howner, .inl hi⟩
  | some r =>
    obtain ⟨p, rfl, hcounts, hsound, hturns⟩ := h.exists_progress hr
    simp only [Event.apply, hr, State.commit]
    refine ⟨⟨fun b => ?_, hsound.mono fun b m hm => ?_⟩, fun i hi hrule hnew => ?_,
      fun i hi hrule hlive => ?_⟩
    · rcases eq_or_ne b agent with rfl | hb
      · simpa using (h.agent b).report hcounts
      · simpa [hb] using h.agent b
    · rcases eq_or_ne b agent with rfl | hb
      · simpa [AlertedWith, Agent.entries] using hm
      · simpa [AlertedWith, hb] using hm
    · rcases hturns.opened i hi hrule with ⟨j, hj, hid, -⟩ | ⟨n, howner, hn, hdown, hstreak⟩
      · exact absurd (hid ▸ List.mem_map_of_mem hj) hnew
      · exact ⟨agent, n, reported, now, rfl, howner, hn, hdown, by simpa [hn] using hstreak⟩
    · obtain ⟨⟨b, n⟩, howner, hmem | ⟨rfl, hrunning⟩⟩ := hturns.kept i hi hrule hlive
      · exact ⟨b, n, howner, .inl hmem⟩
      · exact ⟨b, n, howner, .inr (.inl ⟨reported, now, rfl, .inl hrunning⟩)⟩

/-- A new watch list keeps the invariant, and is lawful. -/
theorem Inv.watchList (h : Inv env s) (hnew : (new.names.map env.py.lower).Nodup) :
    Inv env (Event.apply env s (.watchList agent new now)) ∧
      LawfulByReport env s (.watchList agent new now)
        (Event.apply env s (.watchList agent new now)) := by
  have hagent := h.agent agent
  have hdropped : ∀ n, n ∈ droppedFrom (s.agents agent).entries new.names ↔
      Alerted (s.agents agent).entries n ∧ n ∉ new.names := by
    intro n
    simp only [droppedFrom, List.mem_map, List.mem_filter, decide_eq_true_eq, Alerted]
    constructor
    · rintro ⟨e, ⟨he, halerted, hnot⟩, rfl⟩
      exact ⟨⟨e, he, rfl, halerted⟩, hnot⟩
    · rintro ⟨⟨e, he, rfl, halerted⟩, hnot⟩
      exact ⟨e, ⟨he, halerted, hnot⟩, rfl⟩
  have hwatched : ∀ n, Alerted (s.agents agent).entries n →
      n ∈ (s.agents agent).watched.names := by
    rintro n ⟨e, he, rfl, -⟩
    exact hagent.watched e he
  obtain ⟨hsound, hturns⟩ := Sound.dropped (a := s.agents agent)
    (p := ⟨s.incidents, [], [], []⟩) now (droppedFrom (s.agents agent).entries new.names)
    h.sound (by
      rw [hagent.id]
      intro n hn m hm hlower
      exact hagent.eq_of_lower (hwatched m hm) (hwatched n ((hdropped n).mp hn).1) hlower)
  rw [hagent.id] at hsound hturns
  have hraised : (applyWatchListChange env (s.agents agent) new now s.incidents).2.raised = [] :=
    raised_dropped _
  simp only [Event.apply, State.commit, hraised, ownedBy_nil]
  refine ⟨⟨fun b => ?_, hsound.mono fun b m hm => ?_⟩, fun i hi hrule hi' => ?_,
    fun i hi hrule hlive => ?_⟩
  · rcases eq_or_ne b agent with rfl | hb
    · simpa using (h.agent b).watchList hnew s.incidents
    · simpa [hb] using h.agent b
  · rcases eq_or_ne b agent with rfl | hb
    · obtain ⟨⟨e, he, rfl, halerted⟩, hnot⟩ := hm
      have hkeep : e.name ∈ new.names := by
        by_contra hgone
        exact hnot ⟨rfl, (hdropped e.name).mpr ⟨⟨e, he, rfl, halerted⟩, hgone⟩⟩
      have hstill : Alerted (applyWatchListChange env (s.agents b) new now s.incidents).1.entries
          e.name := by
        rw [entries_applyWatchListChange]
        exact ⟨e, List.mem_filter.mpr ⟨he, by simpa using hkeep⟩, rfl, halerted⟩
      simpa using hstill
    · simpa [hb] using hm.1
  · rcases hturns.opened i hi hrule with ⟨j, hj, hid, -⟩ | ⟨n, -, hn⟩
    · exact absurd (hid ▸ List.mem_map_of_mem hj) hi'
    · exact hn.elim
  · obtain ⟨⟨b, n⟩, howner, hmem | ⟨rfl, hgone⟩⟩ := hturns.kept i hi hrule hlive
    · exact ⟨b, n, howner, .inl hmem⟩
    · exact ⟨b, n, howner, .inr (.inr (.inl ⟨new, now, rfl, ((hdropped n).mp hgone).2⟩))⟩

/-! ### Other code -/

/-- The incidents of services after a write of other code are those from before. -/
theorem exists_row_of_other {w : Write} (hregular : w.Regular)
    (hrule : ∀ now e, w = .evaluated now e → e.rule ≠ rule)
    (hw : w.apply env.hashing.digest16 t = some t') :
    ∀ j ∈ t'.rows, j.rule = rule → ∃ i ∈ t.rows, i.id = j.id ∧ i.rule = rule ∧
      i.hostIdsHash = j.hostIdsHash ∧ (j.live = true → i.live = true) := by
  have hchange : ∀ f, Keeps f → t' = t.change f → ∀ j ∈ t'.rows, j.rule = rule → ∃ i ∈ t.rows,
      i.id = j.id ∧ i.rule = rule ∧ i.hostIdsHash = j.hostIdsHash ∧
        (j.live = true → i.live = true) := by
    rintro f hf rfl j hj hjrule
    obtain ⟨i, hi, rfl⟩ := List.mem_map.mp hj
    exact ⟨i, hi, (hf.id i).symm, (hf.rule i).symm.trans hjrule, (hf.hash i).symm, hf.live i⟩
  intro j hj hjrule
  rcases w.cases hw with ⟨now, e, id, notes, rfl, hs⟩ | ⟨f, rfl, rfl⟩ | ⟨n, -, rfl⟩
  · rcases findOrCreate_cases hs with ⟨i, -, -, -, rfl, -⟩ | ⟨-, -, rfl, -⟩
    · exact hchange _ ((keeps_extend now e).ite fun k => k.id = i.id) rfl j hj hjrule
    · rcases List.mem_append.mp hj with hj | hj
      · exact ⟨j, hj, rfl, hjrule, rfl, fun h => h⟩
      · rw [List.mem_singleton.mp hj] at hjrule
        exact absurd hjrule (hrule now e rfl)
  · exact hchange f hregular rfl j hj hjrule
  · exact ⟨j, hj, rfl, hjrule, rfl, id⟩

theorem Sound.other (h : Sound env t owner A) {w : Write} (hregular : w.Regular)
    (hrule : ∀ now e, w = .evaluated now e → e.rule ≠ rule)
    (hw : w.apply env.hashing.digest16 t = some t') : Sound env t' owner A where
  valid := h.valid.apply hregular hw
  owned j hj hjrule hlive := by
    obtain ⟨i, hi, hid, hirule, hhash, hilive⟩ := exists_row_of_other hregular hrule hw j hj hjrule
    rw [← hid, ← hhash]
    exact h.owned i hi hirule (hilive hlive)
  fresh id hid := h.fresh id ((next_le_of_writes (P := Write.Regular)
    (.single ⟨w, hregular, hw⟩)).trans hid)

/-- An event that leaves the incidents and the owners alone is lawful. -/
theorem Sound.lawful_of_eq (h : Sound env s.incidents s.owner A) {e : Event}
    (hincidents : s'.incidents = s.incidents) : LawfulByReport env s e s' where
  opened i hi _ hnew := absurd (List.mem_map_of_mem (hincidents ▸ hi)) hnew
  kept i hi hrule hlive := by
    obtain ⟨b, n, howner, -, -⟩ := h.owned i hi hrule hlive
    exact ⟨b, n, howner, .inl (hincidents ▸ hi)⟩

/-! ### Runs -/

/-- **Every event keeps the invariant, and is lawful.** -/
theorem Inv.apply (h : Inv env s) {e : Event} (he : e.CaseDistinct env) :
    Inv env (e.apply env s) ∧ LawfulByReport env s e (e.apply env s) := by
  cases e with
  | report agent reported now => exact h.report
  | watchList agent new now => exact h.watchList he
  | renamed agent name hostname =>
    have hagents : ∀ b, ((Event.renamed agent name hostname).apply env s).agents b =
        if b = agent then { s.agents b with name := name, hostname := hostname }
        else s.agents b := by
      intro b
      rcases eq_or_ne b agent with rfl | hb
      · simp [Event.apply]
      · simp [Event.apply, hb]
    refine ⟨⟨fun b => ?_, h.sound.mono fun b m hm => ?_⟩, h.sound.lawful_of_eq rfl⟩
    · rw [hagents]
      split
      · exact ⟨(h.agent b).id, (h.agent b).distinct, (h.agent b).watched, (h.agent b).nodup,
          (h.agent b).counted, (h.agent b).untold⟩
      · exact h.agent b
    · rw [hagents]
      split
      · exact hm
      · exact hm
  | threshold setting | pingHosts hosts => exact ⟨⟨h.agent, h.sound⟩, h.sound.lawful_of_eq rfl⟩
  | other w hregular hrule =>
    cases hw : w.apply env.hashing.digest16 s.incidents with
    | none =>
      simp only [Event.apply, hw]
      exact ⟨h, h.sound.lawful_of_eq rfl⟩
    | some incidents =>
      simp only [Event.apply, hw]
      refine ⟨⟨h.agent, h.sound.other hregular hrule hw⟩, fun j hj hjrule hnew => ?_,
        fun i hi hirule hlive => ?_⟩
      · obtain ⟨i, hi, hid, -⟩ := exists_row_of_other hregular hrule hw j hj hjrule
        exact absurd (hid ▸ List.mem_map_of_mem hi) hnew
      · obtain ⟨b, n, howner, -, -⟩ := h.sound.owned i hi hirule hlive
        exact ⟨b, n, howner, .inr (.inr (.inr ⟨w, hregular, hrule, rfl⟩))⟩

/-- The states after events. -/
def Step (env : Env) (s : State) (e : Event) (s' : State) : Prop := s' = e.apply env s

theorem inv_of_run {next : ℕ} {events : List Event}
    (hrun : Run (Step env) (State.init next) events s)
    (hdistinct : ∀ e ∈ events, e.CaseDistinct env) : Inv env s :=
  hrun.invariant_of_forall (fun _ _ _ he h hs => hs ▸ (h.apply he).1) hdistinct (inv_init env next)

/-- **Incidents of services open and close on evidence.** In every run in which no watch list has
two names that are the same in lower case, every event is lawful: it opens an incident of a service
only if it is a report of its agent in which the service is watched and does not run, and with which
its streak of failures has reached the threshold; and it changes an incident only if it is a report
in which its own service runs, or its service is no longer watched. -/
theorem incidents_on_evidence {next : ℕ} {events : List Event} {e : Event}
    (hrun : Run (Step env) (State.init next) events s)
    (hdistinct : ∀ e' ∈ e :: events, e'.CaseDistinct env) :
    LawfulByReport env s e (e.apply env s) := by
  obtain ⟨he, hevents⟩ := List.forall_mem_cons.mp hdistinct
  exact ((inv_of_run hrun hevents).apply he).2

/-! ### Where a stricter reading fails -/

/-- The state in the item of that very name. -/
def namedState (reported : List Json) (name : String) : ServiceState :=
  stateOf (((indexReported reported).find? (·.1 = name)).map Prod.snd)

/-- What a report says of a service in the item of that very name. -/
def LawfulByName : State → Event → State → Prop :=
  Lawful (fun reported name => (namedState reported name).failing = true)
    (fun reported name => namedState reported name = .running)

section Unlawful

variable {fails runs : List Json → String → Prop}

theorem not_lawful_of_opened (name : String)
    (hi : ∃ i ∈ s'.incidents.rows, i.rule = rule ∧ i.id ∉ s.incidents.rows.map Incident.id ∧
      s'.owner i.id = some (agent, name)) (hnot : ¬fails reported name) :
    ¬Lawful fails runs s (.report agent reported now) s' := by
  intro h
  obtain ⟨i, hi, hrule, hnew, howner⟩ := hi
  obtain ⟨b, n, reported', now', hevent, howner', -, hfails, -⟩ := h.opened i hi hrule hnew
  rw [howner, Option.some.injEq, Prod.mk.injEq] at howner'
  injection hevent with _ hreported
  exact hnot (hreported ▸ howner'.2 ▸ hfails)

theorem not_lawful_of_changed (name : String)
    (hi : ∃ i ∈ s.incidents.rows, i.rule = rule ∧ i.live = true ∧
      s.owner i.id = some (agent, name) ∧ i ∉ s'.incidents.rows)
    (hwatched : name ∈ (s.agents agent).watched.names) (hnot : ¬runs reported name) :
    ¬Lawful fails runs s (.report agent reported now) s' := by
  intro h
  obtain ⟨i, hi, hrule, hlive, howner, hgone⟩ := hi
  obtain ⟨b, n, howner', hkept⟩ := h.kept i hi hrule hlive
  rw [howner, Option.some.injEq, Prod.mk.injEq] at howner'
  obtain ⟨rfl, rfl⟩ := howner'
  rcases hkept with hmem | ⟨reported', now', hevent, hruns | hunwatched⟩ | ⟨_, _, hevent, -⟩ |
    ⟨_, _, _, hevent⟩
  · exact hgone hmem
  · injection hevent with _ hreported
    exact hnot (hreported ▸ hruns)
  · exact hunwatched hwatched
  · cases hevent
  · cases hevent

end Unlawful

/-- One service is watched, and one failure is enough. -/
def watchNginx : List Event :=
  [.watchList 7 ⟨["nginx"], List.nodup_singleton "nginx", valid_nginx⟩ 0, .threshold (some 1)]

/-- The report of a service by its name in another letter case. -/
def upperReport : List Json := states [("NGINX", "stopped")]

/-- The events before the threshold is lowered, while the report does not tell the service. -/
def failedOnce : List Event :=
  [.watchList 7 ⟨["nginx"], List.nodup_singleton "nginx", valid_nginx⟩ 0,
    .report 7 (states [("nginx", "stopped")]) 0, .threshold (some 1)]

/-- Two services whose names are the same in lower case, of which the first one is down. -/
def sharedKey : List Event :=
  [.watchList 7 ⟨["Nginx", "nginx"], by decide, by decide +kernel⟩ 0, .threshold (some 1),
    .report 7 (states [("Nginx", "stopped"), ("nginx", "running")]) 0,
    .report 7 (states [("Nginx", "stopped"), ("nginx", "stopped")]) 0]

/-- The second service runs again. -/
def secondRuns : List Json := states [("Nginx", "stopped"), ("nginx", "running")]

theorem run_after (events : List Event) (s : State) :
    Run (Step sampleEnv) s events (events.foldl (fun s e => e.apply sampleEnv s) s) := by
  induction events generalizing s with
  | nil => exact .nil s
  | cons e events ih => exact .cons rfl (ih _)

/-- A stricter reading fails: an incident is opened by a report of another name in lower case, and
by one that does not tell the service, and of two services with one key the first has its incident
resolved while it is down. -/
theorem not_lawfulByName :
    (∃ s, Run (Step sampleEnv) (.init 1) watchNginx s ∧
      ¬LawfulByName s (.report 7 upperReport 0)
        ((Event.report 7 upperReport 0).apply sampleEnv s)) ∧
    (∃ s, Run (Step sampleEnv) (.init 1) failedOnce s ∧
      ¬LawfulByName s (.report 7 [] 0) ((Event.report 7 [] 0).apply sampleEnv s)) ∧
    ∃ s, Run (Step sampleEnv) (.init 1) sharedKey s ∧
      ¬LawfulByName s (.report 7 secondRuns 0)
        ((Event.report 7 secondRuns 0).apply sampleEnv s) := by
  refine ⟨⟨_, run_after watchNginx _, not_lawful_of_opened "nginx" ?_ ?_⟩,
    ⟨_, run_after failedOnce _, not_lawful_of_opened "nginx" ?_ ?_⟩,
    ⟨_, run_after sharedKey _, not_lawful_of_changed "Nginx" ?_ ?_ ?_⟩⟩
  all_goals decide +kernel

/-- The incident of a service that is down. -/
theorem incidents_on_evidence_watchNginx :
    LawfulByReport sampleEnv (watchNginx.foldl (fun s e => e.apply sampleEnv s) (.init 1))
      (.report 7 (states [("nginx", "stopped")]) 0)
      ((Event.report 7 (states [("nginx", "stopped")]) 0).apply sampleEnv
        (watchNginx.foldl (fun s e => e.apply sampleEnv s) (.init 1))) :=
  incidents_on_evidence (run_after watchNginx _) (by
    intro e he
    rcases List.mem_cons.mp he with rfl | he
    · trivial
    · rcases List.mem_cons.mp he with rfl | he
      · exact List.nodup_singleton _
      · rw [List.mem_singleton.mp he]
        trivial)

end Nodeglow.AgentServices
