import Nodeglow.Backend.Incidents.IntegrationAlerts
import Nodeglow.Foundation.Run

/-!
# The self-check

The self-check reports what is wrong with the program itself, and resolves its incidents whose title
is no longer among the problems. Its evaluations name no hosts, so that all its incidents have one
key: at any time at most one of them is open. It is the incident of the first problem, and it keeps
its title while it is open. Every open incident has the title of a problem; that every problem has
an incident is true of lists with one title, which is the one of the open incident.

## Main results

* `showing_runSelfCheck_iff` — which titles a run shows.
* `mirrors_iff`.

Source: `backend/services/self_check.py`, lines 392–433; `backend/services/correlation.py`, lines
140–187.
-/

namespace Nodeglow.Incidents

/-- A problem, with the fields of which an incident is made. -/
structure Problem where
  title : String
  severity : Severity
  hostIds : List ℕ
deriving DecidableEq, Repr

/-- `SELF_CHECK_RULE`. -/
def selfCheckRule : String := "self_check"

/-- The arguments with which a problem reaches `_find_or_create_incident`. -/
def Problem.evaluation (p : Problem) : Evaluation :=
  ⟨selfCheckRule, p.title, p.severity, [], none, true, some p.hostIds⟩

section Runs

variable (digest : String → String) (now : ℚ)

/-- The loop over the problems. -/
def reportProblems (problems : List Problem) (s : Store) : Option Store :=
  problems.foldlM (fun s p => (findOrCreate digest now p.evaluation s).map Prod.fst) s

/-- `run_self_check`, of the problems that it has collected. -/
def runSelfCheck (problems : List Problem) (s : Store) : Option Store :=
  (reportProblems digest now problems s).map fun s => s.change fun i =>
    if (i.live = true ∧ i.rule = selfCheckRule) ∧ i.title ∉ problems.map Problem.title then
      i.resolve now
    else i

end Runs

/-- There is an open self-check incident with the title. -/
def Showing (s : Store) (title : String) : Prop :=
  ∃ i ∈ s.rows, i.live = true ∧ i.rule = selfCheckRule ∧ i.title = title

/-- Every problem has an open incident with its title, and every open incident has the title of a
problem. -/
def Mirrors (problems : List Problem) (s : Store) : Prop :=
  (∀ p ∈ problems, Showing s p.title) ∧
    ∀ title, Showing s title → ∃ p ∈ problems, p.title = title

/-- What happens to the table: runs of the self-check, and what the rest of the program writes. -/
inductive SelfCheckEvent
  | run (now : ℚ) (problems : List Problem)
  | other (w : Write) (hregular : w.Regular)
      (hrule : ∀ now e, w = .evaluated now e → e.rule ≠ selfCheckRule)

/-- The table after an event that does not raise. -/
def SelfCheckEvent.apply (digest : String → String) (s : Store) : SelfCheckEvent → Option Store
  | .run now problems => runSelfCheck digest now problems s
  | .other w _ _ => w.apply digest s

section Laws

variable {digest : String → String} {now : ℚ} {s s' : Store} {problems : List Problem}
  {p : Problem} {title title' : String}

/-- The table is valid, and all self-check incidents have one key. -/
structure OneKey (digest : String → String) (s : Store) : Prop where
  valid : s.Valid
  key : ∀ i ∈ s.rows, i.rule = selfCheckRule → i.hostIdsHash = some (hostIdsHash digest [])

/-- At most one title is shown. -/
theorem OneKey.title_eq (h : OneKey digest s) (ht : Showing s title) (ht' : Showing s title') :
    title = title' := by
  obtain ⟨i, hi, hlive, hrule, rfl⟩ := ht
  obtain ⟨j, hj, hjlive, hjrule, rfl⟩ := ht'
  exact congrArg Incident.title (h.valid.keyed i hi j hj _ _ ⟨hlive, hrule, h.key i hi hrule⟩
    ⟨hjlive, hjrule, h.key j hj hjrule⟩)

theorem OneKey.change (h : OneKey digest s) {f : Incident → Incident} (hf : Keeps f) :
    OneKey digest (s.change f) := by
  refine ⟨h.valid.change hf, fun j hj hrule => ?_⟩
  obtain ⟨i, hi, rfl⟩ := List.mem_map.mp hj
  rw [hf.hash]
  exact h.key i hi ((hf.rule i).symm.trans hrule)

/-- An evaluation keeps the key, if it has it or is of another rule. -/
theorem OneKey.findOrCreate (h : OneKey digest s) {e : Evaluation} {id : ℕ} {notes : List Note}
    (he : e.rule = selfCheckRule → e.hash digest = hostIdsHash digest [])
    (hs : Incidents.findOrCreate digest now e s = some (s', id, notes)) : OneKey digest s' := by
  refine ⟨h.valid.findOrCreate hs, fun j hj hrule => ?_⟩
  rcases findOrCreate_cases hs with ⟨i, hi, hhas, rfl, rfl, -⟩ | ⟨-, rfl, rfl, -⟩
  · exact (h.change ((keeps_extend now e).ite fun k => k.id = i.id)).key j hj hrule
  · rcases List.mem_append.mp hj with hj | hj
    · exact h.key j hj hrule
    · rw [List.mem_singleton.mp hj] at hrule ⊢
      exact congrArg some (he hrule)

/-- **One problem** is shown if nothing is, and otherwise what is shown stays. -/
theorem showing_findOrCreate {id : ℕ} {notes : List Note}
    (hs : findOrCreate digest now p.evaluation s = some (s', id, notes)) :
    (∀ title, Showing s title → Showing s' title) ∧
      ((∀ title, ¬ Showing s title) → Showing s' p.title) := by
  rcases findOrCreate_cases hs with ⟨i, hi, hhas, rfl, rfl, -⟩ | ⟨hnone, rfl, rfl, -⟩
  · refine ⟨?_, fun hnone => absurd ⟨i, hi, hhas.1, hhas.2.1, rfl⟩ (hnone i.title)⟩
    rintro title ⟨j, hj, hlive, hrule, rfl⟩
    refine ⟨_, List.mem_map_of_mem hj, ?_⟩
    split
    · exact ⟨hlive, hrule, rfl⟩
    · exact ⟨hlive, hrule, rfl⟩
  · refine ⟨?_, fun _ => ⟨_, List.mem_append_right _ List.mem_cons_self, rfl, rfl, rfl⟩⟩
    rintro title ⟨j, hj, hj'⟩
    exact ⟨j, List.mem_append_left _ hj, hj'⟩

/-- **The loop** shows what was shown before it, or the first problem. -/
theorem showing_reportProblems (h : OneKey digest s)
    (hs : reportProblems digest now problems s = some s') :
    OneKey digest s' ∧ (∀ title, Showing s title → Showing s' title) ∧
      ((∀ title, ¬ Showing s title) → ∀ p ∈ problems.head?, Showing s' p.title) := by
  induction problems generalizing s with
  | nil =>
    obtain rfl := Option.some.inj hs
    exact ⟨h, fun _ ht => ht, by simp⟩
  | cons p problems ih =>
    obtain ⟨t, ht, hs⟩ := Option.bind_eq_some_iff.mp hs
    obtain ⟨⟨t', id, notes⟩, hfind, rfl⟩ := Option.map_eq_some_iff.mp ht
    have hone : OneKey digest t' := h.findOrCreate (fun _ => rfl) hfind
    obtain ⟨hold, hnew⟩ := showing_findOrCreate hfind
    obtain ⟨hone', hkeep, -⟩ := ih hone hs
    refine ⟨hone', fun title ht => hkeep title (hold title ht), fun hnone q hq => ?_⟩
    obtain rfl := Option.some.inj hq
    exact hkeep _ (hnew hnone)

/-- A run resolves the incidents whose title is not among the problems. -/
theorem showing_runSelfCheck_iff (hs : runSelfCheck digest now problems s = some s') :
    ∃ t, reportProblems digest now problems s = some t ∧
      ∀ title, Showing s' title ↔ Showing t title ∧ ∃ p ∈ problems, p.title = title := by
  obtain ⟨t, ht, rfl⟩ := Option.map_eq_some_iff.mp hs
  refine ⟨t, ht, fun title => ⟨?_, ?_⟩⟩
  · rintro ⟨j, hj, hlive, hrule, rfl⟩
    obtain ⟨i, hi, rfl⟩ := List.mem_map.mp hj
    split at hlive
    · simp [Incident.live, Incident.resolve] at hlive
    · rename_i hkeep
      rw [if_neg hkeep] at hrule ⊢
      rw [not_and, not_not] at hkeep
      obtain ⟨p, hp, hpt⟩ := List.mem_map.mp (hkeep ⟨hlive, hrule⟩)
      exact ⟨⟨i, hi, hlive, hrule, rfl⟩, p, hp, hpt⟩
  · rintro ⟨⟨i, hi, hlive, hrule, rfl⟩, p, hp, hpt⟩
    refine ⟨i, List.mem_map.mpr ⟨i, hi, if_neg ?_⟩, hlive, hrule, rfl⟩
    exact fun hgone => hgone.2 (hpt ▸ List.mem_map_of_mem hp)

theorem OneKey.apply (h : OneKey digest s) {event : SelfCheckEvent}
    (hs : event.apply digest s = some s') : OneKey digest s' := by
  cases event with
  | run now problems =>
    obtain ⟨t, ht, rfl⟩ := Option.map_eq_some_iff.mp hs
    exact (showing_reportProblems h ht).1.change ((keeps_resolve now).ite _)
  | other w hregular hrule =>
    rcases w.cases hs with ⟨now, e, id, notes, rfl, hfind⟩ | ⟨f, rfl, rfl⟩ | ⟨n, rfl, rfl⟩
    · exact h.findOrCreate (fun he => absurd he (hrule now e rfl)) hfind
    · exact h.change hregular
    · exact ⟨h.valid.skip n, h.key⟩

theorem oneKey_of_run {next : ℕ} {events : List SelfCheckEvent}
    (hrun : Run (fun s event s' => event.apply digest s = some s') (.empty next) events s) :
    OneKey digest s :=
  hrun.invariant (fun _ _ _ h hs => h.apply hs) ⟨valid_empty next, by simp [Store.empty]⟩

/-- No run raises. -/
theorem exists_reportProblems (h : OneKey digest s) :
    ∃ t, reportProblems digest now problems s = some t := by
  induction problems generalizing s with
  | nil => exact ⟨s, rfl⟩
  | cons p problems ih =>
    obtain ⟨⟨t, id, notes⟩, hfind⟩ := h.valid.exists_findOrCreate digest now p.evaluation
    obtain ⟨u, hu⟩ := ih (h.findOrCreate (fun _ => rfl) hfind)
    exact ⟨u, Option.bind_eq_some_iff.mpr ⟨t, by simp only [hfind]; rfl, hu⟩⟩

/-- **When the self-check mirrors the problems.** In every table after runs of the self-check with
whatever problems: after one more run the open self-check incidents are those of its problems, if
and only if its problems have one title, and it is the title of the open incident, if there is
one. No run raises, and never is an incident open whose title no problem has. -/
theorem mirrors_iff {next : ℕ} {events : List SelfCheckEvent}
    (hrun : Run (fun s event s' => event.apply digest s = some s') (.empty next) events s)
    (now : ℚ) (problems : List Problem) :
    ∃ s', runSelfCheck digest now problems s = some s' ∧
      (∀ title, Showing s' title → ∃ p ∈ problems, p.title = title) ∧
      (Mirrors problems s' ↔
        (∀ p ∈ problems, ∀ q ∈ problems, p.title = q.title) ∧
          ∀ title, Showing s title → ∀ p ∈ problems, p.title = title) := by
  have hone := oneKey_of_run hrun
  obtain ⟨t, ht⟩ : ∃ t, reportProblems digest now problems s = some t := exists_reportProblems hone
  obtain ⟨s', hs⟩ : ∃ s', runSelfCheck digest now problems s = some s' := by
    simp [runSelfCheck, ht]
  obtain ⟨t', ht', hshowing⟩ := showing_runSelfCheck_iff hs
  obtain rfl := Option.some.inj (ht.symm.trans ht')
  obtain ⟨honet, hkeep, hfirst⟩ := showing_reportProblems hone ht
  refine ⟨s', hs, fun title htitle => ((hshowing title).mp htitle).2, ?_, ?_⟩
  · rintro ⟨hall, -⟩
    have hshown : ∀ p ∈ problems, Showing t p.title := fun p hp => ((hshowing _).mp (hall p hp)).1
    exact ⟨fun p hp q hq => honet.title_eq (hshown p hp) (hshown q hq),
      fun title htitle p hp => honet.title_eq (hshown p hp) (hkeep title htitle)⟩
  · rintro ⟨hsame, hopen⟩
    refine ⟨fun p hp => (hshowing _).mpr ⟨?_, p, hp, rfl⟩,
      fun title htitle => ((hshowing title).mp htitle).2⟩
    by_cases hnone : ∀ title, ¬ Showing s title
    · cases problems with
      | nil => cases hp
      | cons q problems =>
        rw [hsame p hp q List.mem_cons_self]
        exact hfirst hnone q rfl
    · rw [not_forall] at hnone
      obtain ⟨title, htitle⟩ := hnone
      rw [not_not] at htitle
      rw [hopen title htitle p hp]
      exact hkeep title htitle

/-- A stream that has gone quiet, and a job that does not complete. -/
def quietStream : Problem := ⟨"Syslog: data is stale", .critical, []⟩

def failingJob : Problem := ⟨"Scheduled job not completing: ping_checks", .warning, []⟩

/-- One problem has an incident. -/
theorem mirrors_quietStream :
    ∃ s, runSelfCheck Hashing.sample.digest16 100 [quietStream] (.empty 1) = some s ∧
      Mirrors [quietStream] s := by
  have hrun : Run (fun s (event : SelfCheckEvent) s' =>
      event.apply Hashing.sample.digest16 s = some s') (.empty 1) [] (.empty 1) := .nil _
  obtain ⟨s, hs, -, hiff⟩ := mirrors_iff hrun 100 [quietStream]
  refine ⟨s, hs, hiff.mpr ⟨by simp, ?_⟩⟩
  rintro title ⟨i, hi, -⟩
  cases hi

/-- Of two problems one has no incident. -/
theorem not_mirrors_two :
    ∃ s, runSelfCheck Hashing.sample.digest16 100 [quietStream, failingJob] (.empty 1) = some s ∧
      s.rows.map Incident.title = [quietStream.title] ∧ ¬ Mirrors [quietStream, failingJob] s := by
  cases hs : runSelfCheck Hashing.sample.digest16 100 [quietStream, failingJob] (.empty 1) with
  | none => exact absurd (congrArg Option.isSome hs) (by decide +kernel)
  | some s =>
    have htitles : s.rows.map Incident.title = [quietStream.title] := by
      have : (runSelfCheck Hashing.sample.digest16 100 [quietStream, failingJob] (.empty 1)).map
          (fun s => s.rows.map Incident.title) = some [quietStream.title] := by decide +kernel
      rw [hs] at this
      exact Option.some.inj this
    refine ⟨s, rfl, htitles, fun hmirrors => ?_⟩
    obtain ⟨i, hi, -, -, htitle⟩ := hmirrors.1 failingJob (by simp)
    have hmem : i.title ∈ s.rows.map Incident.title := List.mem_map_of_mem hi
    rw [htitles, htitle] at hmem
    exact absurd hmem (by decide)

end Laws

end Nodeglow.Incidents
