import Nodeglow.Backend.Incidents.Correlation
import Nodeglow.Foundation.Run
import Nodeglow.Foundation.Streak

/-!
# The streaks of the correlation rules

In a complete cycle every finding adds one to the counter of its rule and its hosts. As long as no
two findings of a cycle have the same rule and the same hosts, a counter is the number of the
tenant's latest cycles in a row with such a finding, and an incident is opened or refreshed only
after `min_cycles` of them. Two integrations that run on one host are two findings with one counter,
and reach the number in half the time.

## Main results

* `tracker_of_complete` — a complete cycle counts all its findings.
* `Counts.run` — the counters are streaks.
* `streak_law` — what is opened or refreshed is backed.

Source: `backend/services/correlation.py`, lines 70–98, 419–465 and 1149–1154.
-/

namespace Nodeglow.Incidents

/-! ### What a complete cycle counts -/

section Cycle

variable {h : Digests} {tenant : ℕ} {c : Cycle} {s : Store} {tracker : Tracker}

theorem trackAll_append (keys keys' : List HitKey) (tr : Tracker) :
    trackAll (keys ++ keys') tr = trackAll keys' (trackAll keys tr) :=
  List.foldl_append

/-- A loop that does not raise counts every finding. -/
theorem tracker_reportAll {digest : String → String} {minCycles : ℕ} {now : ℚ} {fs : List Finding}
    {p : Progress} (hok : (reportAll digest tenant minCycles now fs p).1 = false) :
    (reportAll digest tenant minCycles now fs p).2.tracker =
      trackAll (fs.map (Finding.key digest tenant)) p.tracker := by
  induction fs generalizing p with
  | nil => rfl
  | cons f fs ih =>
    simp only [reportAll] at hok ⊢
    split at hok
    · simp_all
    · rename_i hraised
      rw [if_neg hraised, ih hok, tracker_report]
      rfl

/-- Rules that are all ok have counted all their findings. -/
theorem tracker_runRules {rs : List Rule} {p : Bool × Progress} (hoffline : c.offlineKnown = true)
    (hok : (runRules h tenant c rs p).1 = true) :
    (runRules h tenant c rs p).2.tracker =
      trackAll ((rs.flatMap c.findings).map (Finding.key h.digest16 tenant)) p.2.tracker := by
  induction rs generalizing p with
  | nil => rfl
  | cons r rs ih =>
    have hruns : c.runs r = true := by simp [Cycle.runs, hoffline]
    simp only [runRules, hruns, if_true] at hok ⊢
    obtain ⟨-, hrule⟩ := Bool.and_eq_true_iff.mp (ok_of_runRules hok)
    obtain ⟨-, hraised, hrun⟩ := runRule_of_ok hrule
    rw [ih hok, List.flatMap_cons, List.map_append, trackAll_append, hrun,
      tracker_reportAll hraised]

/-- **What a complete cycle counts.** -/
theorem tracker_of_complete (hcomplete : (runCorrelation h tenant c s tracker).1 = true) :
    (runCorrelation h tenant c s tracker).2.tracker =
      pruneStaleHits tenant
        (trackAll (c.allFindings.map (Finding.key h.digest16 tenant)) tracker) := by
  obtain ⟨hsettings, hoffline, horphans, hfault, hrules⟩ := of_complete hcomplete
  have hafter : (afterRules h tenant c s tracker).2.tracker =
      trackAll (c.allFindings.map (Finding.key h.digest16 tenant)) tracker :=
    tracker_runRules hoffline hrules
  have hresolved : (resolveStep h c (beforeResolve h tenant c s tracker).2).2.tracker =
      (afterRules h tenant c s tracker).2.tracker := by
    simp [resolveStep, hoffline, hfault, beforeResolve, orphansStep, horphans]
  have htracker : (runCorrelation h tenant c s tracker).2.tracker =
      if (runCorrelation h tenant c s tracker).1 = true then
        pruneStaleHits tenant
          (resolveStep h c (beforeResolve h tenant c s tracker).2).2.tracker
      else clearCycleHits tenant
        (resolveStep h c (beforeResolve h tenant c s tracker).2).2.tracker := by
    simp only [runCorrelation, hsettings, if_false]
  rw [htracker, if_pos hcomplete, hresolved, hafter]

/-- What has been opened or refreshed had a counter that was high enough. -/
def Counted (digest : String → String) (tenant minCycles : ℕ) (fs : List Finding) (p : Progress) :
    Prop :=
  ∀ x ∈ p.touched, x.1 ∈ fs ∧ minCycles ≤ p.tracker.counts (x.1.key digest tenant)

theorem counts_le_hit (tr : Tracker) (a k : HitKey) : tr.counts k ≤ (tr.hit a).counts k := by
  by_cases hk : k = a
  · simp [Tracker.hit, hk]
  · simp [Tracker.hit, hk]

theorem counted_report {digest : String → String} {minCycles : ℕ} {now : ℚ} {f : Finding}
    {fs : List Finding} {p : Progress} (hp : Counted digest tenant minCycles fs p) (hf : f ∈ fs) :
    Counted digest tenant minCycles fs (report digest tenant minCycles now f p).2 := by
  have hold : ∀ x ∈ p.touched, x.1 ∈ fs ∧ minCycles ≤
      (p.tracker.hit (f.key digest tenant)).counts (x.1.key digest tenant) := fun x hx =>
    ⟨(hp x hx).1, (hp x hx).2.trans (counts_le_hit _ _ _)⟩
  rcases report_cases digest tenant minCycles now f p with
    ⟨-, h⟩ | ⟨hdue, ⟨-, h⟩ | ⟨store, id, notes, -, h⟩⟩ <;> rw [h]
  · exact hold
  · exact hold
  · intro x hx
    rcases List.mem_append.mp hx with hx | hx
    · exact hold x hx
    · rw [List.mem_singleton.mp hx]
      refine ⟨hf, ?_⟩
      simpa [Tracker.hit] using hdue

theorem counted_runRules {rs : List Rule} {p : Bool × Progress} (hoffline : c.offlineKnown = true)
    (hok : (runRules h tenant c rs p).1 = true)
    (hp : Counted h.digest16 tenant c.minCycles c.allFindings p.2) :
    Counted h.digest16 tenant c.minCycles c.allFindings (runRules h tenant c rs p).2 := by
  induction rs generalizing p with
  | nil => exact hp
  | cons r rs ih =>
    have hruns : c.runs r = true := by simp [Cycle.runs, hoffline]
    simp only [runRules, hruns, if_true] at hok ⊢
    obtain ⟨-, hrule⟩ := Bool.and_eq_true_iff.mp (ok_of_runRules hok)
    obtain ⟨-, -, hrun⟩ := runRule_of_ok hrule
    refine ih hok ?_
    rw [hrun]
    exact invariant_reportAll (fun f hf q hq =>
      counted_report hq (Cycle.mem_allFindings.mpr ⟨r, hf⟩)) hp

/-- In a complete cycle what is opened or refreshed has a counter that is high enough. -/
theorem counted_of_complete (hcomplete : (runCorrelation h tenant c s tracker).1 = true) :
    ∀ x ∈ (runCorrelation h tenant c s tracker).2.touched, x.1 ∈ c.allFindings ∧ c.minCycles ≤
      (trackAll (c.allFindings.map (Finding.key h.digest16 tenant)) tracker).counts
        (x.1.key h.digest16 tenant) := by
  obtain ⟨hsettings, hoffline, horphans, -, hrules⟩ := of_complete hcomplete
  have hcounted := counted_runRules hoffline hrules
    (by simp [Counted, Progress.start] : Counted _ _ _ _ (Progress.start s tracker))
  have htouched : (runCorrelation h tenant c s tracker).2.touched =
      (afterRules h tenant c s tracker).2.touched := by
    rw [touched_runCorrelation hsettings]
    simp [beforeResolve, orphansStep, horphans]
  have htracker : (afterRules h tenant c s tracker).2.tracker =
      trackAll (c.allFindings.map (Finding.key h.digest16 tenant)) tracker :=
    tracker_runRules hoffline hrules
  rw [htouched, ← htracker]
  exact hcounted

end Cycle

/-! ### All tenants -/

/-- The tables of the tenants, and the counters that they share. -/
structure Server where
  stores : ℕ → Store
  tracker : Tracker

/-- A complete cycle of a tenant. -/
def Server.Step (h : Digests) (v : Server) (a : ℕ × Cycle) (v' : Server) : Prop :=
  (runCorrelation h a.1 a.2 (v.stores a.1) v.tracker).1 = true ∧
    v' = { stores := Function.update v.stores a.1
             (runCorrelation h a.1 a.2 (v.stores a.1) v.tracker).2.store
           tracker := (runCorrelation h a.1 a.2 (v.stores a.1) v.tracker).2.tracker }

/-- No two findings of the cycle have the same rule and the same hosts. -/
def Separate (c : Cycle) : Prop :=
  c.allFindings.Pairwise fun f g => ¬ (f.trackRule = g.trackRule ∧ f.trackHosts.Perm g.trackHosts)

/-- The cycle has a finding with the rule and the hosts. -/
def Matches (f : Finding) (c : Cycle) : Prop :=
  ∃ g ∈ c.allFindings, g.trackRule = f.trackRule ∧ g.trackHosts.Perm f.trackHosts

/-- The tenant's cycles among the steps, the latest first. -/
def pastOf (tenant : ℕ) (steps : List (ℕ × Cycle)) : List Cycle :=
  ((steps.filter fun a => a.1 = tenant).map Prod.snd).reverse

/-- Each of the directly preceding `minCycles - 1` cycles has the finding. -/
def Backed (past : List Cycle) (minCycles : ℕ) (f : Finding) : Prop :=
  minCycles - 1 ≤ past.length ∧ ∀ c ∈ past.take (minCycles - 1), Matches f c

instance (c : Cycle) : Decidable (Separate c) :=
  inferInstanceAs (Decidable (List.Pairwise _ _))

instance (f : Finding) (c : Cycle) : Decidable (Matches f c) :=
  inferInstanceAs (Decidable (∃ g ∈ c.allFindings, _))

instance (past : List Cycle) (minCycles : ℕ) (f : Finding) :
    Decidable (Backed past minCycles f) :=
  inferInstanceAs (Decidable (_ ∧ ∀ c ∈ _, _))

section Server

variable {h : Digests} {v v' : Server} {a : ℕ × Cycle} {steps : List (ℕ × Cycle)}

/-- The keys of a cycle. -/
abbrev keysOf (h : Digests) (a : ℕ × Cycle) : List HitKey :=
  a.2.allFindings.map (Finding.key h.digest16 a.1)

theorem key_eq_iff (hdigest : Function.Injective h.digest16) {tenant : ℕ} {f g : Finding} :
    f.key h.digest16 tenant = g.key h.digest16 tenant ↔
      f.trackRule = g.trackRule ∧ f.trackHosts.Perm g.trackHosts := by
  simp only [Finding.key, hitKey, HitKey.mk.injEq, true_and]
  refine and_congr_right fun _ => ⟨fun hhash => ?_, fun hperm => ?_⟩
  · have hsort := insertionSort_eq_of_hostIdsHash hdigest hhash
    exact ((List.perm_insertionSort _ _).symm.trans (.of_eq hsort)).trans
      (List.perm_insertionSort _ _)
  · rw [hostIdsHash, hostIdsHash]
    congr 2
    exact List.Perm.eq_of_pairwise (fun _ _ _ _ => Nat.le_antisymm)
      (List.pairwise_insertionSort _ _) (List.pairwise_insertionSort _ _)
      ((List.perm_insertionSort _ _).trans (hperm.trans (List.perm_insertionSort _ _).symm))

theorem mem_keysOf_iff (hdigest : Function.Injective h.digest16) {f : Finding} :
    f.key h.digest16 a.1 ∈ keysOf h a ↔ Matches f a.2 := by
  simp only [keysOf, List.mem_map, Matches, key_eq_iff hdigest]

theorem nodup_keysOf (hdigest : Function.Injective h.digest16) (hseparate : Separate a.2) :
    (keysOf h a).Nodup := by
  rw [keysOf, List.Nodup, List.pairwise_map]
  exact hseparate.imp fun hne hkey => hne ((key_eq_iff hdigest).mp hkey)

/-- What a complete cycle without common counters does to each of them. -/
theorem counts_step (hdigest : Function.Injective h.digest16) (hseparate : Separate a.2)
    (hstep : Server.Step h v a v') (hhits : v.tracker.hits = []) :
    v'.tracker.hits = [] ∧ ∀ k, v'.tracker.counts k =
      if k.tenant ≠ a.1 then v.tracker.counts k
      else if k ∈ keysOf h a then v.tracker.counts k + 1 else 0 := by
  obtain ⟨hcomplete, rfl⟩ := hstep
  have htenant : ∀ k ∈ keysOf h a, k.tenant = a.1 := by
    intro k hk
    obtain ⟨f, -, rfl⟩ := List.mem_map.mp hk
    rfl
  simp only [tracker_of_complete hcomplete]
  constructor
  · refine List.eq_nil_iff_forall_not_mem.mpr fun k hk => hits_cycle _ a.1 k hk ?_
    have hmem := List.mem_of_mem_filter hk
    rw [hits_trackAll, hhits] at hmem
    exact htenant k (hmem.resolve_right List.not_mem_nil)
  · intro k
    rw [counts_cycle htenant (by simp [hhits])]
    split
    · rfl
    · split
      · rename_i hmem
        rw [List.count_eq_one_of_mem (nodup_keysOf hdigest hseparate) hmem]
      · rfl

theorem pastOf_concat (tenant : ℕ) (steps : List (ℕ × Cycle)) (a : ℕ × Cycle) :
    pastOf tenant (steps ++ [a]) =
      if a.1 = tenant then a.2 :: pastOf tenant steps else pastOf tenant steps := by
  unfold pastOf
  by_cases ha : a.1 = tenant <;> simp [ha]

/-- A counter is the number of the tenant's latest cycles in a row with its key. -/
def Counts (h : Digests) (steps : List (ℕ × Cycle)) (v : Server) : Prop :=
  v.tracker.hits = [] ∧ ∀ k, v.tracker.counts k =
    streak (fun c => k ∈ keysOf h (k.tenant, c)) (pastOf k.tenant steps)

theorem Counts.step (hdigest : Function.Injective h.digest16) (hv : Counts h steps v)
    (hseparate : Separate a.2) (hstep : Server.Step h v a v') : Counts h (steps ++ [a]) v' := by
  obtain ⟨hhits, hcounts⟩ := counts_step hdigest hseparate hstep hv.1
  refine ⟨hhits, fun k => ?_⟩
  rw [hcounts k, pastOf_concat]
  by_cases hk : k.tenant = a.1
  · rw [if_neg (not_not.mpr hk), if_pos hk.symm, streak_cons, hv.2 k, hk]
    simp only [decide_eq_true_eq]
  · rw [if_pos hk, if_neg (Ne.symm hk), hv.2 k]

/-- **The counters are streaks**, in a run in which no two findings of a cycle have a counter in
common. -/
theorem Counts.run (hdigest : Function.Injective h.digest16)
    (hrun : Run (Guarded (fun _ a => Separate a.2) (Server.Step h)) v steps v')
    {past : List (ℕ × Cycle)} (hv : Counts h past v) : Counts h (past ++ steps) v' := by
  induction hrun generalizing past with
  | nil v => rwa [List.append_nil]
  | cons hstep _ ih =>
    rw [List.append_cons]
    exact ih (hv.step hdigest hstep.1 hstep.2)

theorem counts_empty (h : Digests) (stores : ℕ → Store) : Counts h [] ⟨stores, .empty⟩ :=
  ⟨rfl, fun _ => rfl⟩

/-- **The streak law.** In a run of complete cycles of any tenants, in which no two findings of a
cycle have the same rule and the same hosts, what a cycle opens or refreshes matches in it and in
each of the directly preceding `min_cycles - 1` cycles of the tenant. A counter grows by one with a
match, is forgotten without one, and is left alone by the cycles of other tenants. -/
theorem streak_law (hdigest : Function.Injective h.digest16) {stores : ℕ → Store}
    (hrun : Run (Guarded (fun _ a => Separate a.2) (Server.Step h)) ⟨stores, .empty⟩ steps v)
    (hseparate : Separate a.2) (hstep : Server.Step h v a v') :
    (∀ x ∈ (runCorrelation h a.1 a.2 (v.stores a.1) v.tracker).2.touched,
      Matches x.1 a.2 ∧ Backed (pastOf a.1 steps) a.2.minCycles x.1) ∧
    ∀ k, v'.tracker.counts k =
      if k.tenant ≠ a.1 then v.tracker.counts k
      else if k ∈ keysOf h a then v.tracker.counts k + 1 else 0 := by
  have hcounts : Counts h steps v := (counts_empty h stores).run hdigest hrun
  refine ⟨fun x hx => ?_, (counts_step hdigest hseparate hstep hcounts.1).2⟩
  obtain ⟨hmem, hdue⟩ := counted_of_complete hstep.1 x hx
  have hkey : x.1.key h.digest16 a.1 ∈ keysOf h a := List.mem_map_of_mem hmem
  rw [counts_trackAll, List.count_eq_one_of_mem (nodup_keysOf hdigest hseparate) hkey,
    hcounts.2] at hdue
  refine ⟨(mem_keysOf_iff hdigest).mp hkey, ?_⟩
  obtain ⟨hlength, hall⟩ := le_streak_iff.mp (Nat.sub_le_of_le_add hdue)
  refine ⟨hlength, fun c hc => ?_⟩
  exact (mem_keysOf_iff (a := (a.1, c)) hdigest).mp (of_decide_eq_true (hall c hc))

/-- Host 1 is down and has sent errors, and two cycles are asked for. -/
def errorsCycle (now : ℚ) : Cycle :=
  let c := Cycle.ofHosts [.down 1 "10.0.0.1"] nodup_oneHost pos_oneHost [] 2 now
  { c with
    observed := { c.observed with syslogErrors := fun _ => 4 }
    lookups := { c.lookups with syslogErrors := fun _ => 4 } }

/-- The server after the first of two such cycles. -/
def afterErrors : Server where
  stores := Function.update (fun _ => .empty 1) 1 (runCorrelation Hashing.sample.toDigests 1
    (errorsCycle 100) (.empty 1) .empty).2.store
  tracker := (runCorrelation Hashing.sample.toDigests 1 (errorsCycle 100) (.empty 1)
    .empty).2.tracker

/-- The second cycle opens an incident, which the first one backs. -/
theorem streak_law_errorsCycle :
    ∃ x ∈ (runCorrelation Hashing.sample.toDigests 1 (errorsCycle 101) (afterErrors.stores 1)
      afterErrors.tracker).2.touched, x.1.rule = "host_down_syslog" ∧
        Backed [errorsCycle 100] 2 x.1 := by
  have htouched : ∃ x ∈ (runCorrelation Hashing.sample.toDigests 1 (errorsCycle 101)
      (afterErrors.stores 1) afterErrors.tracker).2.touched,
        x.1.rule = "host_down_syslog" := by decide +kernel
  obtain ⟨x, hx, hrule⟩ := htouched
  have hrun : Run (Guarded (fun _ a => Separate a.2) (Server.Step Hashing.sample.toDigests))
      ⟨fun _ => .empty 1, .empty⟩ [(1, errorsCycle 100)] afterErrors :=
    .cons ⟨by decide +kernel, by decide +kernel, rfl⟩ (.nil _)
  exact ⟨x, hx, hrule, ((streak_law (a := (1, errorsCycle 101)) tabulated_injective hrun
    (by decide +kernel) ⟨by decide +kernel, rfl⟩).1 x hx).2⟩

/-- Two integrations run on host 1, which is down. -/
def twoIntegrationsCycle : Cycle :=
  let c := Cycle.ofHosts [.down 1 "10.0.0.1"] nodup_oneHost pos_oneHost [] 2 100
  let config (id : ℕ) (name : String) : MonitoredConfig :=
    { config := ⟨id, "truenas", name, none, noSlash_truenas⟩
      enabled := true
      host := some "https://10.0.0.1:443"
      snapshotOk := some false }
  { c with observed := { c.observed with configs := [config 1 "backup", config 2 "archive"] } }

/-- An incident is opened in the first cycle of a process, although two cycles are asked for. -/
theorem not_backed_twoIntegrations :
    (runCorrelation Hashing.sample.toDigests 1 twoIntegrationsCycle (.empty 1) .empty).1 = true ∧
    ∃ x ∈ (runCorrelation Hashing.sample.toDigests 1 twoIntegrationsCycle (.empty 1)
      .empty).2.touched, x.1.rule = "integration_host" ∧
        ¬ Backed (pastOf 1 []) twoIntegrationsCycle.minCycles x.1 := by
  decide +kernel

end Server

end Nodeglow.Incidents
