import Nodeglow.Backend.Incidents.HostRules

/-!
# Announcements

A correlation rule sends the notification of a new incident as soon as the incident has a number,
before the transaction of the rule is committed. When the rule raises afterwards, or its commit
fails, the incident that has been announced does not exist, and its number is never given to
another one. The notifications about integrations are queued in their transaction, and sent after
its commit: each of them is about an incident that exists.

## Main results

* `announced_runRules`, `missing_runRules` — what the rules announce.
* `announced_runUnit` — what an integration unit announces.
* `announced_iff`.

Source: `backend/services/correlation.py`, lines 140–222 and 1058–1161;
`backend/services/integration_alerts.py`, lines 172–214; `backend/services/integration_ingest.py`,
lines 226–236.
-/

namespace Nodeglow.Incidents

/-- A notification about an incident of the table. -/
def Announces (s : Store) (n : Note) : Prop := ∃ i ∈ s.rows, i.id = n.incidentId

/-- A number that no incident of the table has, now or later. -/
def Missing (s : Store) (id : ℕ) : Prop := (∀ i ∈ s.rows, i.id ≠ id) ∧ id < s.next

section Tables

variable {digest : String → String} {s s' : Store} {n : Note} {id : ℕ} {f : Incident → Incident}

theorem Announces.writes (hn : Announces s n) (hw : Writes digest Write.Regular s s') :
    Announces s' n :=
  exists_row_of_writes (R := fun i => i.id = n.incidentId) hw (fun _ _ _ h => h)
    (fun _ i hf h => (hf.id i).trans h) hn

theorem Missing.writes (hid : Missing s id) (hw : Writes digest Write.Regular s s') :
    Missing s' id := by
  refine hw.invariant (I := fun s => Missing s id) ?_ hid
  rintro s w s' hP ⟨hne, hlt⟩ hw
  have hchange : ∀ f, Keeps f → Missing (s.change f) id := by
    intro f hf
    refine ⟨fun j hj => ?_, hlt⟩
    obtain ⟨i, hi, rfl⟩ := List.mem_map.mp hj
    rw [hf.id]
    exact hne i hi
  rcases w.cases hw with ⟨now, e, id', notes, rfl, hs⟩ | ⟨f, rfl, rfl⟩ | ⟨n, rfl, rfl⟩
  · rcases findOrCreate_cases hs with ⟨i, -, -, -, rfl, -⟩ | ⟨-, -, rfl, -⟩
    · exact hchange _ ((keeps_extend now e).ite fun k => k.id = i.id)
    · refine ⟨fun j hj => ?_, Nat.lt_succ_of_lt hlt⟩
      rcases List.mem_append.mp hj with hj | hj
      · exact hne j hj
      · rw [List.mem_singleton.mp hj]
        exact hlt.ne'
  · exact hchange f hP
  · exact ⟨hne, Nat.lt_add_right n hlt⟩

/-- A change that leaves rules, keys and states alone finds the same incidents. -/
theorem has_modify (hf : ∀ i : Incident, ∀ rule key, (f i).Has rule key ↔ i.Has rule key)
    (rule key : String) :
    (∀ j ∈ (s.modify id f).rows, ¬ j.Has rule key) ↔ ∀ i ∈ s.rows, ¬ i.Has rule key := by
  have hif : ∀ i : Incident, (if i.id = id then f i else i).Has rule key ↔ i.Has rule key := by
    intro i
    split
    · exact hf i rule key
    · exact Iff.rfl
  simp only [Store.modify, Store.change, List.forall_mem_map, hif]

end Tables

/-! ### What a rule announces -/

section Rules

variable {digest : String → String} {tenant minCycles : ℕ} {now : ℚ} {f : Finding}
  {fs : List Finding} {p : Progress} {fault : RuleFault}

/-- One of the findings opens an incident: its streak is long enough when its turn comes, and there
is no open incident with its rule and its key. -/
def Opens (digest : String → String) (tenant minCycles : ℕ) (fs : List Finding) (p : Progress) :
    Prop :=
  ∃ earlier f later, fs = earlier ++ f :: later ∧
    minCycles ≤ p.tracker.counts (f.key digest tenant) +
      (earlier.map (Finding.key digest tenant)).count (f.key digest tenant) + 1 ∧
    ∀ i ∈ p.store.rows, ¬ i.Has f.rule (f.evaluation.hash digest)

variable (digest tenant minCycles now f) in
/-- A finding opens an incident and sends its notification, or it sends nothing, and then the later
ones open what they would have opened. -/
theorem report_sent (hvalid : p.store.Valid) :
    (Opens digest tenant minCycles [f] p ∧
      (report digest tenant minCycles now f p).2.sent =
        p.sent ++ [f.evaluation.note p.store.next] ∧
      p.store.next < (report digest tenant minCycles now f p).2.store.next ∧
      Announces (report digest tenant minCycles now f p).2.store
        (f.evaluation.note p.store.next)) ∨
    (¬ Opens digest tenant minCycles [f] p ∧
      (report digest tenant minCycles now f p).2.sent = p.sent ∧
      ∀ rule key, (∀ i ∈ (report digest tenant minCycles now f p).2.store.rows,
        ¬ i.Has rule key) ↔ ∀ i ∈ p.store.rows, ¬ i.Has rule key) := by
  have hopens : Opens digest tenant minCycles [f] p ↔
      minCycles ≤ p.tracker.counts (f.key digest tenant) + 1 ∧
        ∀ i ∈ p.store.rows, ¬ i.Has f.rule (f.evaluation.hash digest) := by
    constructor
    · rintro ⟨earlier, g, later, hfs, hdue, hnew⟩
      obtain ⟨rfl, rfl, rfl⟩ : earlier = [] ∧ g = f ∧ later = [] := by
        cases earlier <;> simp_all
      exact ⟨by simpa using hdue, hnew⟩
    · rintro ⟨hdue, hnew⟩
      exact ⟨[], f, [], rfl, by simpa using hdue, hnew⟩
  have htemplate : ∀ i : Incident, ∀ rule key,
      (i.addTemplate f.template).Has rule key ↔ i.Has rule key := by
    intro i rule key
    obtain ⟨t, ht⟩ := addTemplate_eq f.template i
    rw [ht]
    exact Iff.rfl
  rw [hopens]
  rcases report_cases digest tenant minCycles now f p with
    ⟨hlt, h⟩ | ⟨hdue, ⟨hnone, h⟩ | ⟨store, id, notes, hs, h⟩⟩ <;> rw [h]
  · exact .inr ⟨fun hdue => absurd hdue.1 (Nat.not_le_of_lt hlt), rfl, fun _ _ => Iff.rfl⟩
  · obtain ⟨r, hr⟩ := hvalid.exists_findOrCreate digest now f.evaluation
    rw [hr] at hnone
    cases hnone
  · rcases findOrCreate_cases hs with ⟨i, hi, hhas, rfl, rfl, rfl⟩ | ⟨hnew, rfl, rfl, rfl⟩
    · refine .inr ⟨fun hopen => hopen.2 i hi hhas, by simp, fun rule key => ?_⟩
      rw [has_modify htemplate]
      exact has_modify (f := Incident.extend now f.evaluation) (fun _ _ _ => Iff.rfl) rule key
    · refine .inl ⟨⟨hdue, hnew⟩, rfl, Nat.lt_succ_self _, ?_⟩
      refine ⟨_, Store.mem_modify.mpr
        (.inl ⟨_, List.mem_append_right _ List.mem_cons_self, rfl, rfl⟩), ?_⟩
      obtain ⟨t, ht⟩ := addTemplate_eq f.template _
      rw [ht]
      rfl

theorem report_ok (hvalid : p.store.Valid) :
    (report digest tenant minCycles now f p).1 = false := by
  rcases report_cases digest tenant minCycles now f p with
    ⟨-, h⟩ | ⟨-, ⟨hnone, h⟩ | ⟨store, id, notes, -, h⟩⟩
  · rw [h]
  · obtain ⟨r, hr⟩ := hvalid.exists_findOrCreate digest now f.evaluation
    rw [hr] at hnone
    cases hnone
  · rw [h]

/-- A finding that opens nothing leaves it to the later ones. -/
theorem opens_cons (hfirst : ¬ Opens digest tenant minCycles [f] p)
    (hhas : ∀ rule key, (∀ i ∈ (report digest tenant minCycles now f p).2.store.rows,
      ¬ i.Has rule key) ↔ ∀ i ∈ p.store.rows, ¬ i.Has rule key) :
    Opens digest tenant minCycles (f :: fs) p ↔
      Opens digest tenant minCycles fs (report digest tenant minCycles now f p).2 := by
  have hcount : ∀ (earlier : List Finding) (k : HitKey),
      p.tracker.counts k + ((f :: earlier).map (Finding.key digest tenant)).count k =
        (report digest tenant minCycles now f p).2.tracker.counts k +
          (earlier.map (Finding.key digest tenant)).count k := by
    intro earlier k
    rw [tracker_report, ← counts_trackAll, ← counts_trackAll]
    rfl
  constructor
  · rintro ⟨earlier, g, later, hfs, hdue, hnew⟩
    cases earlier with
    | nil =>
      obtain ⟨rfl, rfl⟩ := List.cons.inj hfs
      exact absurd ⟨[], f, [], rfl, hdue, hnew⟩ hfirst
    | cons e earlier =>
      obtain ⟨rfl, rfl⟩ := List.cons.inj hfs
      exact ⟨earlier, g, later, rfl, hcount earlier _ ▸ hdue, (hhas _ _).mpr hnew⟩
  · rintro ⟨earlier, g, later, rfl, hdue, hnew⟩
    exact ⟨f :: earlier, g, later, rfl, (hcount earlier _).symm ▸ hdue, (hhas _ _).mp hnew⟩

variable (digest tenant minCycles now fs) in
/-- **What a loop sends**, in addition to what has been sent: something if and only if it opens an
incident, and only about incidents that it has added to the table. -/
theorem sent_reportAll (hvalid : p.store.Valid) :
    (reportAll digest tenant minCycles now fs p).1 = false ∧
    ∃ notes, (reportAll digest tenant minCycles now fs p).2.sent = p.sent ++ notes ∧
      (notes ≠ [] ↔ Opens digest tenant minCycles fs p) ∧
      ∀ n ∈ notes, Announces (reportAll digest tenant minCycles now fs p).2.store n ∧
        p.store.next ≤ n.incidentId ∧
          n.incidentId < (reportAll digest tenant minCycles now fs p).2.store.next := by
  induction fs generalizing p with
  | nil => exact ⟨rfl, [], by simp [reportAll], by simp [Opens], by simp⟩
  | cons f fs ih =>
    have hwrites : Writes digest Write.Regular p.store
        (report digest tenant minCycles now f p).2.store :=
      (writes_report (List.mem_singleton_self f)).mono fun _ => RuleWrite.regular
    obtain ⟨hok, notes, hsent, hopens, hnotes⟩ := ih (hvalid.writes hwrites)
    have hstep : reportAll digest tenant minCycles now (f :: fs) p =
        reportAll digest tenant minCycles now fs (report digest tenant minCycles now f p).2 := by
      rw [reportAll, report_ok hvalid]
      rfl
    have hrest : Writes digest Write.Regular (report digest tenant minCycles now f p).2.store
        (reportAll digest tenant minCycles now fs
          (report digest tenant minCycles now f p).2).2.store :=
      writes_reportAll.mono fun _ => RuleWrite.regular
    rw [hstep]
    refine ⟨hok, ?_⟩
    rcases report_sent digest tenant minCycles now f hvalid with
      ⟨hopen, hf, hlt, hfound⟩ | ⟨hopen, hf, hhas⟩
    · refine ⟨f.evaluation.note p.store.next :: notes, by simp [hsent, hf], ?_, fun n hn => ?_⟩
      · obtain ⟨earlier, g, later, hfs, hopen⟩ := hopen
        obtain ⟨rfl, rfl, rfl⟩ : earlier = [] ∧ g = f ∧ later = [] := by
          cases earlier <;> simp_all
        exact iff_of_true (by simp) ⟨[], g, fs, rfl, hopen⟩
      · rcases List.mem_cons.mp hn with rfl | hn
        · exact ⟨hfound.writes hrest, le_rfl, hlt.trans_le (next_le_of_writes hrest)⟩
        · exact ⟨(hnotes n hn).1, (next_le_of_writes hwrites).trans (hnotes n hn).2.1,
            (hnotes n hn).2.2⟩
    · refine ⟨notes, by rw [hsent, hf], hopens.trans (opens_cons hopen hhas).symm, fun n hn => ?_⟩
      exact ⟨(hnotes n hn).1, (next_le_of_writes hwrites).trans (hnotes n hn).2.1,
        (hnotes n hn).2.2⟩

/-- The rule raises, or its commit fails, after it has opened an incident. -/
def RaisesAfterOpening (digest : String → String) (tenant minCycles : ℕ) (fs : List Finding)
    (fault : RuleFault) (p : Progress) : Prop :=
  ∃ handled counted lost, fault = .raises handled counted lost ∧
    Opens digest tenant minCycles (fs.take handled) p

variable (digest tenant minCycles now fs fault) in
/-- What a rule leaves behind: notifications about incidents of the table, and others only when it
raises after it has opened an incident. -/
theorem sent_runRule (hvalid : p.store.Valid) :
    ∃ notes, (runRule digest tenant minCycles now fs fault p).2.sent = p.sent ++ notes ∧
      (¬ RaisesAfterOpening digest tenant minCycles fs fault p →
        ∀ n ∈ notes, Announces (runRule digest tenant minCycles now fs fault p).2.store n) ∧
      (RaisesAfterOpening digest tenant minCycles fs fault p →
        ∃ n ∈ notes,
          Missing (runRule digest tenant minCycles now fs fault p).2.store n.incidentId) := by
  cases fault with
  | never =>
    obtain ⟨hok, notes, hsent, -, hnotes⟩ := sent_reportAll digest tenant minCycles now fs hvalid
    have hrun : runRule digest tenant minCycles now fs .never p =
        (true, (reportAll digest tenant minCycles now fs p).2) := by
      simp [runRule, reportUntil, hok]
    rw [hrun]
    refine ⟨notes, hsent, fun _ n hn => (hnotes n hn).1, ?_⟩
    rintro ⟨_, _, _, hfault, -⟩
    cases hfault
  | raises handled counted lost =>
    obtain ⟨hok, notes, hsent, hopens, hnotes⟩ :=
      sent_reportAll digest tenant minCycles now (fs.take handled) hvalid
    have hraises : RaisesAfterOpening digest tenant minCycles fs (.raises handled counted lost) p ↔
        notes ≠ [] := by
      rw [hopens]
      constructor
      · rintro ⟨_, _, _, hfault, hopen⟩
        cases hfault
        exact hopen
      · exact fun hopen => ⟨handled, counted, lost, rfl, hopen⟩
    rw [hraises]
    simp only [runRule, reportUntil, hok, Bool.false_eq_true, if_false, if_true]
    refine ⟨notes, hsent, fun hnone n hn => ?_, fun hsome => ?_⟩
    · rw [not_not.mp hnone] at hn
      cases hn
    · obtain ⟨n, hn⟩ := List.exists_mem_of_ne_nil notes hsome
      refine ⟨n, hn, fun i hi => ?_, ?_⟩
      · exact ((hvalid.lt i hi).trans_le (hnotes n hn).2.1).ne
      · exact Nat.lt_add_right _ (hnotes n hn).2.2

end Rules

/-! ### What a cycle announces -/

section Cycle

variable {h : Digests} {tenant : ℕ} {c : Cycle} {s : Store} {tracker : Tracker}

/-- No rule of the cycle raises after it has opened an incident. -/
def Quiet (h : Digests) (tenant : ℕ) (c : Cycle) : List Rule → Bool × Progress → Prop
  | [], _ => True
  | r :: rs, p =>
    (c.runs r = true →
      ¬ RaisesAfterOpening h.digest16 tenant c.minCycles (c.findings r) (c.fault r) p.2) ∧
    Quiet h tenant c rs (runRules h tenant c [r] p)

/-- All that has been sent is about incidents of the table. -/
def Announced (p : Progress) : Prop := ∀ n ∈ p.sent, Announces p.store n

theorem runRules_cons (r : Rule) (rs : List Rule) (p : Bool × Progress) :
    runRules h tenant c (r :: rs) p = runRules h tenant c rs (runRules h tenant c [r] p) := by
  simp only [runRules]
  split <;> rfl

theorem regular_runRules (rs : List Rule) (p : Bool × Progress) :
    Writes h.digest16 Write.Regular p.2.store (runRules h tenant c rs p).2.store :=
  writes_runRules.mono fun _ => RuleWrite.regular

/-- What has been sent stays sent. -/
theorem mem_sent_runRules {rs : List Rule} {p : Bool × Progress} (hvalid : p.2.store.Valid)
    {n : Note} (hn : n ∈ p.2.sent) : n ∈ (runRules h tenant c rs p).2.sent := by
  refine (invariant_runRules (I := fun q => q.store.Valid ∧ n ∈ q.sent) (fun r _ q hq => ?_)
    ⟨hvalid, hn⟩).2
  obtain ⟨notes, hsent, -⟩ :=
    sent_runRule h.digest16 tenant c.minCycles c.now (c.findings r) (c.fault r) hq.1
  refine ⟨hq.1.writes (writes_runRule.mono fun _ => RuleWrite.regular), ?_⟩
  rw [hsent]
  exact List.mem_append_left _ hq.2

/-- **Quiet rules** announce incidents of the table. -/
theorem announced_runRules {rs : List Rule} {p : Bool × Progress} (hvalid : p.2.store.Valid)
    (hp : Announced p.2) (hquiet : Quiet h tenant c rs p) :
    Announced (runRules h tenant c rs p).2 := by
  induction rs generalizing p with
  | nil => exact hp
  | cons r rs ih =>
    rw [runRules_cons]
    refine ih (hvalid.writes (regular_runRules [r] p)) ?_ hquiet.2
    by_cases hruns : c.runs r = true
    · obtain ⟨notes, hsent, hnotes, -⟩ :=
        sent_runRule h.digest16 tenant c.minCycles c.now (c.findings r) (c.fault r) hvalid
      have hrun : (runRules h tenant c [r] p).2 = (runRule h.digest16 tenant c.minCycles c.now
          (c.findings r) (c.fault r) p.2).2 := by simp [runRules, hruns]
      have hwrites : Writes h.digest16 Write.Regular p.2.store
          (runRules h tenant c [r] p).2.store := regular_runRules [r] p
      rw [hrun] at hwrites ⊢
      intro n hn
      rw [hsent] at hn
      rcases List.mem_append.mp hn with hn | hn
      · exact (hp n hn).writes hwrites
      · exact hnotes (hquiet.1 hruns) n hn
    · have hskip : (runRules h tenant c [r] p).2 = p.2 := by simp [runRules, hruns]
      rw [hskip]
      exact hp

/-- A rule that raises after it has opened an incident has announced one that will never be in the
table. -/
theorem missing_runRules {rs : List Rule} {p : Bool × Progress} (hvalid : p.2.store.Valid)
    (hquiet : ¬ Quiet h tenant c rs p) :
    ∃ n ∈ (runRules h tenant c rs p).2.sent,
      Missing (runRules h tenant c rs p).2.store n.incidentId := by
  induction rs generalizing p with
  | nil => exact absurd trivial hquiet
  | cons r rs ih =>
    have hvalid' : (runRules h tenant c [r] p).2.store.Valid :=
      hvalid.writes (regular_runRules [r] p)
    rw [runRules_cons]
    by_cases hlater : Quiet h tenant c rs (runRules h tenant c [r] p)
    · have hfirst : c.runs r = true ∧ RaisesAfterOpening h.digest16 tenant c.minCycles
          (c.findings r) (c.fault r) p.2 := by
        by_contra hcontra
        exact hquiet ⟨fun hruns hraises => hcontra ⟨hruns, hraises⟩, hlater⟩
      obtain ⟨notes, hsent, -, hmissing⟩ :=
        sent_runRule h.digest16 tenant c.minCycles c.now (c.findings r) (c.fault r) hvalid
      obtain ⟨n, hn, hmiss⟩ := hmissing hfirst.2
      have hrun : (runRules h tenant c [r] p).2 = (runRule h.digest16 tenant c.minCycles c.now
          (c.findings r) (c.fault r) p.2).2 := by simp [runRules, hfirst.1]
      refine ⟨n, mem_sent_runRules hvalid' ?_, ?_⟩
      · rw [hrun, hsent]
        exact List.mem_append_right _ hn
      · rw [← hrun] at hmiss
        exact hmiss.writes (regular_runRules rs _)
    · exact ih hvalid' hlater

/-- Resolving incidents sends notifications about incidents of the table. -/
theorem announced_resolveIncidents {now : ℚ} {incidents : List Incident} {t : Session}
    (hincidents : ∀ i ∈ incidents, ∃ j ∈ t.store.rows, j.id = i.id)
    (ht : ∀ n ∈ t.queued, Announces t.store n) :
    ∀ n ∈ (resolveIncidents now incidents t).queued,
      Announces (resolveIncidents now incidents t).store n := by
  have hkeep : ∀ n, Announces t.store n → Announces (resolveIncidents now incidents t).store n := by
    rintro n ⟨i, hi, hid⟩
    rw [store_resolveIncidents]
    exact ⟨_, List.mem_map_of_mem hi,
      (((keeps_resolve now).ite fun j => j.id ∈ incidents.map Incident.id).id i).trans hid⟩
  intro n hn
  rw [queued_resolveIncidents] at hn
  rcases List.mem_append.mp hn with hn | hn
  · exact hkeep n (ht n hn)
  · obtain ⟨i, hi, rfl⟩ := List.mem_map.mp hn
    exact hkeep _ (hincidents i hi)

theorem announced_resolveOrphans {now : ℚ} {configs : List IntegrationConfig} {t : Session}
    (ht : ∀ n ∈ t.queued, Announces t.store n) :
    ∀ n ∈ (resolveOrphans h now configs t).queued,
      Announces (resolveOrphans h now configs t).store n := by
  have hopen : ∀ (rule : String) (u : Store) (p : Incident → Bool),
      ∀ i ∈ (openLike rule "" u).filter p, ∃ j ∈ u.rows, j.id = i.id := fun rule u p i hi =>
    ⟨i, List.mem_of_mem_filter (List.mem_of_mem_filter hi), rfl⟩
  simp only [resolveOrphans]
  exact announced_resolveIncidents (hopen _ _ _) (announced_resolveIncidents (hopen _ _ _) ht)

theorem announced_orphansStep {p : Progress} (hvalid : p.store.Valid) (hp : Announced p) :
    Announced (orphansStep h c p).2 := by
  obtain ⟨g, hstore, hg, -⟩ := exists_orphansStep (h := h) (c := c) hvalid
  have hwrites : Writes h.digest16 Write.Regular p.store (orphansStep h c p).2.store :=
    hstore ▸ Writes.changed p.store hg
  have hold : ∀ n ∈ p.sent, Announces (orphansStep h c p).2.store n := fun n hn =>
    (hp n hn).writes hwrites
  unfold orphansStep at hold ⊢
  split
  · exact hp
  · rename_i hraise
    rw [if_neg hraise] at hold
    intro n hn
    rcases List.mem_append.mp hn with hn | hn
    · exact hold n hn
    · exact announced_resolveOrphans (t := { store := p.store, queued := [] }) (by simp) n hn

/-- The transaction for orphans keeps what has been sent, and gives no missing number away. -/
theorem missing_orphansStep {p : Progress} (hvalid : p.store.Valid) {n : Note} (hn : n ∈ p.sent)
    (hmissing : Missing p.store n.incidentId) :
    n ∈ (orphansStep h c p).2.sent ∧ Missing (orphansStep h c p).2.store n.incidentId := by
  obtain ⟨g, hstore, hg, -⟩ := exists_orphansStep (h := h) (c := c) hvalid
  have hwrites : Writes h.digest16 Write.Regular p.store (orphansStep h c p).2.store :=
    hstore ▸ Writes.changed p.store hg
  refine ⟨?_, hmissing.writes hwrites⟩
  unfold orphansStep
  split
  · exact hn
  · exact List.mem_append_left _ hn

/-- What the auto-resolve sends is about incidents of the table, also when it is rolled back. -/
theorem sent_resolveStep (p : Progress) :
    ∃ notes, (resolveStep h c p).2.sent = p.sent ++ notes ∧ ∀ n ∈ notes, Announces p.store n := by
  have hnotes : ∀ count, ∀ n ∈ resolveNotes h.digest16 c.lookups c.offline c.resolveAt count
      p.store, Announces p.store n := by
    intro count n hn
    obtain ⟨i, hi, rfl⟩ := List.mem_map.mp hn
    exact ⟨i, List.mem_of_mem_filter (List.mem_of_mem_take (List.mem_of_mem_filter hi)), rfl⟩
  unfold resolveStep
  cases c.offlineKnown with
  | false => exact ⟨[], by simp, by simp⟩
  | true =>
    cases c.resolveFault with
    | none => exact ⟨_, rfl, hnotes _⟩
    | some count => exact ⟨_, rfl, hnotes count⟩

theorem regular_resolveStep (p : Progress) :
    Writes h.digest16 Write.Regular p.store (resolveStep h c p).2.store := by
  rw [store_resolveStep]
  split
  · exact Writes.changed p.store (keeps_autoResolve _ _ _ _)
  · exact .refl

/-- **What a cycle announces.** All its notifications are about incidents of the table after it, if
and only if no rule raises after it has opened an incident. -/
theorem announced_runCorrelation (hvalid : s.Valid) (hsettings : c.settings ≠ none) :
    Announced (runCorrelation h tenant c s tracker).2 ↔
      Quiet h tenant c rules (c.offlineKnown, .start s tracker) := by
  have hstart : (Progress.start s tracker).store.Valid := hvalid
  have hrules : (afterRules h tenant c s tracker).2.store.Valid := valid_afterRules hvalid
  have hresolve := regular_resolveStep (h := h) (c := c) (beforeResolve h tenant c s tracker).2
  obtain ⟨notes, hsent, hnotes⟩ := sent_resolveStep (h := h) (c := c)
    (beforeResolve h tenant c s tracker).2
  have hcycle : (runCorrelation h tenant c s tracker).2.sent =
      (resolveStep h c (beforeResolve h tenant c s tracker).2).2.sent := by
    simp [runCorrelation, hsettings]
  constructor
  · intro hannounced
    by_contra hquiet
    obtain ⟨n, hn, hmissing⟩ := missing_runRules (p := (c.offlineKnown, .start s tracker)) hstart
      hquiet
    obtain ⟨hn', hmissing'⟩ := missing_orphansStep (h := h) (c := c) hrules hn hmissing
    obtain ⟨i, hi, hid⟩ := hannounced n (by
      rw [hcycle, hsent]
      exact List.mem_append_left _ hn')
    rw [store_runCorrelation hsettings] at hi
    exact (Missing.writes (s := (beforeResolve h tenant c s tracker).2.store) hmissing'
      hresolve).1 i hi hid
  · intro hquiet n hn
    have hbefore : Announced (beforeResolve h tenant c s tracker).2 :=
      announced_orphansStep hrules (announced_runRules (p := (c.offlineKnown, .start s tracker))
        hstart (by simp [Announced, Progress.start]) hquiet)
    rw [store_runCorrelation hsettings]
    rw [hcycle, hsent] at hn
    rcases List.mem_append.mp hn with hn | hn
    · exact (hbefore n hn).writes hresolve
    · exact (hnotes n hn).writes hresolve

end Cycle

/-! ### What an integration unit announces -/

section Unit

variable {h : Digests} {t t' u : Session}

/-- A session goes on: its table by regular writes, its queue by notifications about incidents that
it sees. -/
structure Grows (h : Digests) (t t' : Session) : Prop where
  writes : Writes h.digest16 Write.Regular t.store t'.store
  queue : ∃ notes, t'.queued = t.queued ++ notes ∧ ∀ n ∈ notes, Announces t'.store n

theorem Grows.refl (t : Session) : Grows h t t := ⟨.refl, [], by simp, by simp⟩

theorem Grows.trans (htu : Grows h t u) (hut' : Grows h u t') : Grows h t t' := by
  obtain ⟨notes, hqueue, hnotes⟩ := htu.queue
  obtain ⟨notes', hqueue', hnotes'⟩ := hut'.queue
  refine ⟨htu.writes.trans hut'.writes, notes ++ notes', ?_, fun n hn => ?_⟩
  · rw [hqueue', hqueue, List.append_assoc]
  · rcases List.mem_append.mp hn with hn | hn
    · exact (hnotes n hn).writes hut'.writes
    · exact hnotes' n hn

theorem grows_openOrExtend {now : ℚ} {rule title key : String} {severity : Severity}
    {hostIds : List ℕ} (hvalid : t.store.Valid)
    (ht : openOrExtend h now rule title severity key hostIds t = some t') : Grows h t t' := by
  obtain ⟨⟨store, id, notes⟩, hs, rfl⟩ := Option.map_eq_some_iff.mp ht
  refine ⟨Writes.evaluated hs trivial, ?_⟩
  obtain ⟨⟨r, hr, hid, -⟩, -⟩ := hvalid.exists_row_of_findOrCreate hs
  dsimp only
  split
  · exact ⟨[], by simp, by simp⟩
  · exact ⟨_, rfl, by simpa using ⟨r, hr, hid⟩⟩

theorem grows_resolveIncidents {now : ℚ} {incidents : List Incident}
    (hincidents : ∀ i ∈ incidents, ∃ j ∈ t.store.rows, j.id = i.id) :
    Grows h t (resolveIncidents now incidents t) := by
  have hkeeps := (keeps_resolve now).ite fun j => j.id ∈ incidents.map Incident.id
  refine ⟨store_resolveIncidents now incidents t ▸ Writes.changed t.store hkeeps, _,
    queued_resolveIncidents now incidents t, fun n hn => ?_⟩
  obtain ⟨i, hi, rfl⟩ := List.mem_map.mp hn
  obtain ⟨j, hj, hid⟩ := hincidents i hi
  rw [store_resolveIncidents]
  exact ⟨_, List.mem_map_of_mem hj, (hkeeps.id j).trans hid⟩

theorem grows_evaluateLoop {r : Report} {openKeys : List String} {alerts : List (String × Alert)}
    {fuse : Option ℕ} {streaks : Streaks} (hvalid : t.store.Valid) :
    Grows h t (evaluateLoop h r openKeys alerts fuse (streaks, t)).2.2 := by
  induction alerts generalizing fuse streaks t with
  | nil => exact .refl t
  | cons alert alerts ih =>
    obtain ⟨key, a⟩ := alert
    simp only [evaluateLoop]
    split
    · exact .refl t
    · split
      · exact ih hvalid
      · cases hopen : openOrExtend h r.now alertRule (alertTitle r.cfg a) a.severity key
          (r.hostIds a) t with
        | none => exact .refl t
        | some t' =>
          have hgrows := grows_openOrExtend hvalid hopen
          exact hgrows.trans (ih (hvalid.writes hgrows.writes))

theorem grows_evaluateAlerts {r : Report} {fault : Fault} {streaks : Streaks}
    (hvalid : t.store.Valid) : Grows h t (evaluateAlerts h r fault (streaks, t)).2.2 := by
  simp only [evaluateAlerts]
  split
  · exact .refl t
  split
  · exact .refl t
  split
  · exact grows_evaluateLoop hvalid
  · generalize hkeys : (openLike alertRule (alertPrefix h r.cfg) t.store).filterMap
      Incident.hostIdsHash = openKeys
    have hloop : Grows h t (evaluateLoop h r openKeys (r.current h) fault.fuse
        (endStreaks h r streaks, t)).2.2 := grows_evaluateLoop hvalid
    refine hloop.trans (grows_resolveIncidents fun i hi => ?_)
    have hi' := List.mem_of_mem_filter (List.mem_of_mem_filter hi)
    exact exists_row_of_writes (R := fun j => j.id = i.id) hloop.writes (fun _ _ _ h => h)
      (fun _ j hf h => (hf.id j).trans h) ⟨i, hi', rfl⟩

/-- A step in a savepoint: one that raises leaves the queue and the rows as they were. -/
theorem grows_alerting {step : Streaks × Session → Bool × Streaks × Session} {streaks : Streaks}
    (hstep : Grows h t (step (streaks, t)).2.2) : Grows h t (alerting step (streaks, t)).2 := by
  simp only [alerting]
  split
  · obtain ⟨n, hn⟩ := Nat.exists_eq_add_of_le (next_le_of_writes hstep.writes)
    obtain ⟨notes, hqueue, -⟩ := hstep.queue
    refine ⟨?_, [], by simp [hqueue], by simp⟩
    rw [hn]
    exact Writes.skipped t.store n trivial
  · exact hstep

theorem grows_failureStep {i : Ingest} {f : Failure} {streaks : Streaks} (hvalid : t.store.Valid) :
    Grows h t (failureStep h i f (streaks, t)).2 := by
  refine grows_alerting ?_
  cases hrecord : recordFailure h i.cfg f t with
  | none => exact .refl t
  | some t' =>
    unfold recordFailure at hrecord
    split at hrecord
    · obtain rfl := Option.some.inj hrecord
      exact .refl t
    · split at hrecord
      · obtain rfl := Option.some.inj hrecord
        exact .refl t
      · exact grows_openOrExtend hvalid hrecord

theorem grows_successStep {i : Ingest} {cfg : IntegrationConfig} {streaks : Streaks} :
    Grows h t (successStep i cfg (streaks, t)).2 :=
  grows_alerting (grows_resolveIncidents fun j hj => ⟨j, List.mem_of_mem_filter hj, rfl⟩)

theorem grows_ingest {i : Ingest} {owners : Owners} {streaks : Streaks} (hvalid : t.store.Valid) :
    Grows h t (ingest h i owners (streaks, t)).2.2.2 := by
  unfold ingest
  split
  · exact .refl t
  · split
    · exact grows_failureStep hvalid
    · rename_i clusterName alerts hcollected
      have hsuccess : Grows h t (successStep i (autoGroup clusterName i.cfg) (streaks, t)).2 :=
        grows_successStep
      dsimp only
      split
      · exact hsuccess
      · cases alerts with
        | none => exact hsuccess
        | some alerts =>
          refine hsuccess.trans (grows_alerting ?_)
          exact grows_evaluateAlerts (hvalid.writes hsuccess.writes)

theorem grows_ingestAll {members : List Ingest} {owners : Owners} {streaks : Streaks}
    (hvalid : t.store.Valid) :
    Grows h t (ingestAll h members owners (streaks, t)).2.2 := by
  induction members generalizing owners streaks t with
  | nil => exact .refl t
  | cons i members ih =>
    have hi : Grows h t (ingest h i owners (streaks, t)).2.2.2 := grows_ingest hvalid
    exact hi.trans (ih (hvalid.writes hi.writes))

/-- **What an integration unit announces** is in the table after it, whatever raises and whether the
commit fails. -/
theorem announced_runUnit {members : List Ingest} {owners : Owners} {commits : Bool}
    {streaks : Streaks} {s : Store} (hvalid : s.Valid) :
    ∀ n ∈ (runUnit h members owners commits streaks s).2.2,
      Announces (runUnit h members owners commits streaks s).1 n := by
  have hgrows : Grows h { store := s, queued := [] }
      (ingestAll h members owners (streaks, { store := s, queued := [] })).2.2 :=
    grows_ingestAll hvalid
  obtain ⟨notes, hqueue, hnotes⟩ := hgrows.queue
  simp only [runUnit]
  split
  · rw [hqueue]
    exact hnotes
  · simp

end Unit

/-- **When notifications imply incidents.** Whatever a tenant's table and the streaks, and wherever
rules and commits raise: all notifications of a cycle and of an integration unit are about incidents
of the table after it, if and only if no rule of the cycle raises after it has opened one. -/
theorem announced_iff {h : Digests} {tenant next : ℕ} {events : List TenantEvent} {s : Store}
    (hrun : TenantRun h tenant (.empty next) events s) (c : Cycle) (tracker : Tracker)
    (members : List Ingest) (owners : Owners) (commits : Bool) (streaks : Streaks) :
    (Announced (runCorrelation h tenant c s tracker).2 ∧
      ∀ n ∈ (runUnit h members owners commits streaks s).2.2,
        Announces (runUnit h members owners commits streaks s).1 n) ↔
      c.settings = none ∨ Quiet h tenant c rules (c.offlineKnown, .start s tracker) := by
  have hvalid := valid_of_run hrun
  rw [and_iff_left (announced_runUnit hvalid)]
  by_cases hsettings : c.settings = none
  · refine iff_of_true ?_ (.inl hsettings)
    simp [runCorrelation, hsettings, Announced, Progress.start]
  · rw [announced_runCorrelation hvalid hsettings, or_iff_right hsettings]

/-- Host 1 is down and has sent errors. -/
def hostDownCycle (fault : RuleFault) : Cycle :=
  let c := Cycle.ofHosts [.down 1 "10.0.0.1"] nodup_oneHost pos_oneHost [] 1 100
  { c with
    observed := { c.observed with syslogErrors := fun _ => 4 }
    lookups := { c.lookups with syslogErrors := fun _ => 4 }
    fault := fun r => if r = .hostDownSyslog then fault else .never }

/-- A cycle in which nothing raises, beside a unit without members. -/
theorem announced_hostDownCycle :
    Announced (runCorrelation Hashing.sample.toDigests 1 (hostDownCycle .never) (.empty 1)
      .empty).2 :=
  ((announced_iff (.nil _) (hostDownCycle .never) .empty [] [] true (fun _ => 0)).mpr
    (.inr (by simp [Quiet, rules, RaisesAfterOpening, hostDownCycle]))).1

/-- The commit of the rule fails after its only finding: the incident has been announced, and is not
in the table. -/
theorem not_announced_hostDownCycle :
    ∃ n ∈ (runCorrelation Hashing.sample.toDigests 1 (hostDownCycle (.raises 1 false 0)) (.empty 1)
      .empty).2.sent, n.title = "🔴 Incident: 10.0.0.1 offline with syslog errors" ∧
        (runCorrelation Hashing.sample.toDigests 1 (hostDownCycle (.raises 1 false 0)) (.empty 1)
          .empty).2.store.rows = [] := by
  decide +kernel

end Nodeglow.Incidents
