import Nodeglow.Backend.AgentServices.IncidentEvidence

/-!
# The count of failures over all reports

The entries of the watched services over any sequence of reports and new watch lists. The count of a
service is the number of reports that told it stopped or not found, since the last one that told it
running. Reports that do not tell its state do not change the count, and what they tell of other
services does not matter. A service that is taken off the list and watched again starts anew.

## Main results

* `findReported_filter` — the items of other services do not matter.
* `Counted.apply` — one step.
* `failCount_spec` — all steps.

Source: `backend/services/agent_services.py`, lines 130–191 and 322–344.
-/

namespace Nodeglow.AgentServices

/-! ### Reports and watch lists -/

/-- The watched services of an agent, and their entries. -/
structure Services where
  watched : List String
  entries : List Entry

/-- A report, or a new watch list. -/
inductive Services.Step
  | report (reported : List Json) (now : ℤ)
  | watchList (new : List String)

/-- The services after a step. -/
def Services.apply (py : Text.Lower) (s : Services) : Services.Step → Services
  | .report reported now => { s with entries := mergeReport py s.entries s.watched reported now }
  | .watchList new => { watched := new, entries := s.entries.filter fun svc => svc.name ∈ new }

/-- The services after some steps, of an agent that watched nothing. -/
def Services.run (py : Text.Lower) (steps : List Services.Step) : Services :=
  steps.foldl (Services.apply py) ⟨[], []⟩

/-- What a step tells of a service that is watched if `watched` has it. -/
def follow (env : Env) (name : String) (told : List String × List ServiceState) :
    Services.Step → List String × List ServiceState
  | .report reported _ =>
    (told.1, if name ∈ told.1 then toldState env reported name :: told.2 else [])
  | .watchList new => (new, if name ∈ new then told.2 else [])

/-- **What the reports told of a service** since it is watched, the latest first. -/
def toldSince (env : Env) (name : String) (steps : List Services.Step) : List ServiceState :=
  (steps.foldl (follow env name) ([], [])).2

/-- What a step tells of a service that is watched all the time. -/
def Services.Step.told (env : Env) (name : String) : Services.Step → Option ServiceState
  | .report reported _ => some (toldState env reported name)
  | .watchList _ => none

/-- A step that does not take a service off the list. -/
def Services.Step.Keeps (name : String) : Services.Step → Prop
  | .report _ _ => True
  | .watchList new => name ∈ new

/-- An item of a report of a name, up to letter case. -/
def concerns (py : Text.Lower) (name : String) (r : Json) : Bool :=
  (reportedName r).any fun n => py.lower n = py.lower name

variable {env : Env} {name : String} {steps : List Services.Step} {step : Services.Step}
  {s : Services} {told : List String × List ServiceState}

/-! ### The item of a service -/

theorem indexReported_filter (py : Text.Lower) (reported : List Json) (name : String) :
    indexReported (reported.filter (concerns py name)) =
      (indexReported reported).filter fun r => py.lower r.1 = py.lower name := by
  have hitems : (reported.filter (concerns py name)).filterMap
      (fun r => (reportedName r).map (·, r)) =
      (reported.filterMap fun r => (reportedName r).map (·, r)).filter
        fun r => py.lower r.1 = py.lower name := by
    induction reported with
    | nil => rfl
    | cons r reported ih =>
      rw [List.filter_cons, List.filterMap_cons]
      cases hname : reportedName r with
      | none => simp [concerns, hname, ih]
      | some n => by_cases hn : py.lower n = py.lower name <;> simp [concerns, hname, hn, ih]
  rw [indexReported, indexReported, hitems,
    firstByKey_filter (fun n => py.lower n = py.lower name) Prod.fst, List.filter_map]
  refine congrArg (List.map Prod.snd) (List.filter_congr fun e he => ?_)
  rw [Function.comp_apply, ← key_of_mem_firstByKey he]

/-- **The items of other services** do not matter. -/
theorem findReported_filter (py : Text.Lower) (reported : List Json) (name : String) :
    findReported py (reported.filter (concerns py name)) name = findReported py reported name := by
  have hfind (p : String × Json → Bool) (hp : ∀ r, p r = true → py.lower r.1 = py.lower name)
      (l : List (String × Json)) :
      (l.filter fun r => py.lower r.1 = py.lower name).find? p = l.find? p := by
    rw [List.find?_filter]
    refine congrArg (List.find? · l) (funext fun r => ?_)
    by_cases hr : p r = true
    · simp [hr, hp r hr]
    · simp [hr]
  have hlower : ∀ r : String × Json, ((fun x : String × Json => decide (x.1 = py.lower name)) ∘
      fun r => (py.lower r.1, r.2)) r = true → py.lower r.1 = py.lower name :=
    fun r hr => of_decide_eq_true (p := py.lower r.1 = py.lower name) hr
  simp only [findReported, indexReported_filter, ← List.filter_reverse, List.find?_map]
  rw [hfind _ (fun r hr => by rw [of_decide_eq_true hr]), hfind _ hlower]

/-! ### The count -/

/-- **The count of a service** and what was told of it. -/
structure Counted (env : Env) (name : String) (s : Services)
    (told : List String × List ServiceState) : Prop where
  watched : told.1 = s.watched
  counted : ∀ e ∈ s.entries, e.name = name → e.failCount = failStreak told.2
  mem_iff : (∃ e ∈ s.entries, e.name = name) ↔ told.2 ≠ []

theorem counted_empty (env : Env) (name : String) : Counted env name ⟨[], []⟩ ([], []) where
  watched := rfl
  counted := nofun
  mem_iff := ⟨fun ⟨_, h, _⟩ => (nomatch h), fun h => absurd rfl h⟩

/-- The count of the entry from before. -/
theorem Counted.prevCount (h : Counted env name s told) :
    ((s.entries.reverse.find? (·.name = name)).map Entry.failCount).getD 0 = failStreak told.2 := by
  cases hfound : s.entries.reverse.find? (·.name = name) with
  | none =>
    have hnil : told.2 = [] := by
      refine by_contra fun hne => ?_
      obtain ⟨e, he, hname⟩ := h.mem_iff.mpr hne
      have hnot := List.find?_eq_none.mp hfound e (List.mem_reverse.mpr he)
      exact hnot (decide_eq_true hname)
    rw [hnil]
    rfl
  | some e =>
    have hname : e.name = name := by simpa using List.find?_some hfound
    exact h.counted e (List.mem_reverse.mp (List.mem_of_find?_eq_some hfound)) hname

/-- **One step.** -/
theorem Counted.apply (h : Counted env name s told) (step : Services.Step) :
    Counted env name (s.apply env.py step) (follow env name told step) := by
  cases step with
  | report reported now =>
    refine ⟨h.watched, ?_, ?_⟩
    · intro e he hname
      obtain ⟨n, hn, rfl⟩ := List.mem_map.mp he
      obtain rfl : n = name := hname
      rw [follow, if_pos (h.watched ▸ hn)]
      exact failCount_mergeEntry h.prevCount
    · rw [follow]
      split_ifs with hmem
      · refine ⟨fun _ => nofun, fun _ => ?_⟩
        exact ⟨_, List.mem_map_of_mem (h.watched ▸ hmem), rfl⟩
      · refine ⟨?_, fun hne => absurd rfl hne⟩
        rintro ⟨e, he, hname⟩
        obtain ⟨n, hn, rfl⟩ := List.mem_map.mp he
        obtain rfl : n = name := hname
        exact absurd (h.watched ▸ hn) hmem
  | watchList new =>
    refine ⟨rfl, ?_, ?_⟩
    · intro e he hname
      obtain ⟨he, hnew⟩ := List.mem_filter.mp he
      rw [follow, if_pos (hname ▸ of_decide_eq_true hnew)]
      exact h.counted e he hname
    · rw [follow]
      split_ifs with hmem
      · rw [← h.mem_iff]
        constructor
        · rintro ⟨e, he, hname⟩
          exact ⟨e, (List.mem_filter.mp he).1, hname⟩
        · rintro ⟨e, he, rfl⟩
          exact ⟨e, List.mem_filter.mpr ⟨he, decide_eq_true hmem⟩, rfl⟩
      · refine ⟨?_, fun hne => absurd rfl hne⟩
        rintro ⟨e, he, rfl⟩
        exact absurd (of_decide_eq_true (List.mem_filter.mp he).2) hmem

/-- All steps. -/
theorem counted_run (env : Env) (name : String) (steps : List Services.Step) :
    Counted env name (Services.run env.py steps) (steps.foldl (follow env name) ([], [])) := by
  induction steps using List.reverseRecOn with
  | nil => exact counted_empty env name
  | append_singleton steps step ih =>
    rw [Services.run, List.foldl_append, List.foldl_append]
    exact ih.apply step

/-- Of a service that is watched all the time, every report counts. -/
theorem toldSince_of_keeps {watched : List String} (hwatched : name ∈ watched)
    (hkeeps : ∀ step ∈ steps, step.Keeps name) :
    toldSince env name (.watchList watched :: steps) =
      (steps.filterMap (Services.Step.told env name)).reverse := by
  have hfold : ∀ l : List ServiceState, (steps.foldl (follow env name) (watched, l)).2 =
      (steps.filterMap (Services.Step.told env name)).reverse ++ l := by
    induction steps generalizing watched with
    | nil => exact fun _ => rfl
    | cons step steps ih =>
      obtain ⟨hstep, hall⟩ := List.forall_mem_cons.mp hkeeps
      intro l
      cases step with
      | report reported now =>
        rw [List.foldl_cons, follow, if_pos hwatched, ih hwatched hall]
        simp [Services.Step.told]
      | watchList new =>
        have hnew : name ∈ new := hstep
        rw [List.foldl_cons, follow, if_pos hnew, ih hnew hall]
        rfl
  rw [toldSince, List.foldl_cons, follow, if_pos hwatched, hfold, List.append_nil]

/-- **The count of a service** is the number of reports that told it stopped or not found since the
last one that told it running, over all reports since it is watched. Reports that do not tell its
state are left out, and the items of other services do not matter. -/
theorem failCount_spec (env : Env) (name : String) (steps : List Services.Step) :
    (∀ e ∈ (Services.run env.py steps).entries, e.name = name →
        e.failCount = failStreak (toldSince env name steps)) ∧
      ((∃ e ∈ (Services.run env.py steps).entries, e.name = name) ↔
        toldSince env name steps ≠ []) ∧
      (∀ watched, name ∈ watched → (∀ step ∈ steps, step.Keeps name) →
        toldSince env name (.watchList watched :: steps) =
          (steps.filterMap (Services.Step.told env name)).reverse) ∧
      ∀ reported, toldState env (reported.filter (concerns env.py name)) name =
        toldState env reported name := by
  have hcounted := counted_run env name steps
  refine ⟨hcounted.counted, hcounted.mem_iff, fun _ => toldSince_of_keeps, fun reported => ?_⟩
  rw [toldState, toldState, findReported_filter]

end Nodeglow.AgentServices
