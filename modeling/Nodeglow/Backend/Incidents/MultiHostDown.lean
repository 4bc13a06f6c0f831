import Nodeglow.Backend.Incidents.AutoResolve

/-!
# Incidents about several hosts

The rule about several hosts reports lists of hosts that have no host in common. Its incidents are
told apart by the whole list, so that at any time no two open ones name the same hosts. When an
outage grows, however, the longer list has an incident of its own, and the one of the shorter list
stays open beside it, since the rule reports nothing unless three hosts are offline, and the
auto-resolve closes nothing then.

## Main results

* `disjoint_of_mem_ruleMultiHostDown` — the lists of one cycle.
* `exists_reported`, `stays_open` — the incident of a list, and those of other lists.
* `multi_host_down_distinct` — the open incidents of a tenant, and those of one cycle.

Source: `backend/services/correlation.py`, lines 140–187, 346–414 and 993–997.
-/

namespace Nodeglow.Incidents

/-! ### The lists of one cycle -/

section Lists

variable {o : Observed} {offline : List PingHost} {f g : Finding}

/-- Two groups with a common host are the same group. -/
theorem group_eq {hosts : List PingHost} {a b : String × List PingHost} {x : PingHost}
    (ha : a ∈ bySubnet hosts) (hb : b ∈ bySubnet hosts) (hxa : x ∈ a.2) (hxb : x ∈ b.2) :
    a = b := by
  have hname : a.1 = b.1 := (mem_group ha hxa).2.symm.trans (mem_group hb hxb).2
  refine Prod.ext hname ?_
  rw [mem_bySubnet ha, mem_bySubnet hb, hname]

/-- **Different findings of the rule have no host in common.** -/
theorem disjoint_of_mem_ruleMultiHostDown (hnodup : (offline.map PingHost.id).Nodup)
    (hf : f ∈ ruleMultiHostDown o offline) (hg : g ∈ ruleMultiHostDown o offline) (hne : f ≠ g) :
    f.hostIds.Disjoint g.hostIds := by
  have hsub : ∀ {a : String × List PingHost} {x}, a ∈ bySubnet (primaryHosts o offline) →
      x ∈ a.2 → x ∈ offline := fun ha hx => List.mem_of_mem_filter (mem_group ha hx).1
  -- An id that two lists of hosts share is the id of one host.
  have hshare : ∀ {xs ys : List PingHost}, (∀ x ∈ xs, x ∈ offline) → (∀ y ∈ ys, y ∈ offline) →
      xs.Disjoint ys → (xs.map PingHost.id).Disjoint (ys.map PingHost.id) := by
    intro xs ys hxs hys hdisjoint id hid hid'
    obtain ⟨x, hx, rfl⟩ := List.mem_map.mp hid
    obtain ⟨y, hy, hxy⟩ := List.mem_map.mp hid'
    obtain rfl := List.inj_on_of_nodup_map hnodup (hys y hy) (hxs x hx) hxy
    exact hdisjoint hx hy
  have huncovered : ∀ x ∈ uncovered (primaryHosts o offline), x ∈ offline := by
    intro x hx
    obtain ⟨a, ha, -, hx⟩ := mem_uncovered hx
    exact hsub ha hx
  -- A host of a large group is in no small one.
  have hlarge : ∀ a ∈ bySubnet (primaryHosts o offline), 3 ≤ a.2.length →
      a.2.Disjoint (uncovered (primaryHosts o offline)) := by
    intro a ha hlength x hx hx'
    obtain ⟨b, hb, hsmall, hxb⟩ := mem_uncovered hx'
    obtain rfl := group_eq ha hb hx hxb
    omega
  obtain ⟨-, ⟨a, ha, halength, rfl⟩ | rfl⟩ := mem_ruleMultiHostDown hf <;>
    obtain ⟨-, ⟨b, hb, hblength, rfl⟩ | rfl⟩ := mem_ruleMultiHostDown hg
  · refine hshare (fun x => hsub ha) (fun y => hsub hb) fun x hxa hxb => hne ?_
    rw [group_eq ha hb hxa hxb]
  · exact hshare (fun x => hsub ha) huncovered (hlarge a ha halength)
  · exact hshare huncovered (fun y => hsub hb) (hlarge b hb hblength).symm
  · exact absurd rfl hne

end Lists

/-! ### The incidents of a tenant -/

section Incidents

variable {h : Digests} {tenant : ℕ} {c : Cycle} {s : Store} {tracker : Tracker}

/-- Incidents that have been opened or refreshed in one cycle name different hosts. -/
theorem disjoint_of_touched {i j : Incident} (hvalid : s.Valid)
    (hi : i ∈ (beforeResolve h tenant c s tracker).2.store.rows)
    (hj : j ∈ (beforeResolve h tenant c s tracker).2.store.rows) (hne : i ≠ j)
    (hirule : i.rule = "multi_host_down") (hjrule : j.rule = "multi_host_down")
    {f g : Finding} (hf : (f, i.id) ∈ (beforeResolve h tenant c s tracker).2.touched)
    (hg : (g, j.id) ∈ (beforeResolve h tenant c s tracker).2.touched) {ids ids' : List ℕ}
    (hids : i.hostIds = some ids) (hids' : j.hostIds = some ids') : ids.Disjoint ids' := by
  have htraced : Traced h.digest16 c.allFindings (beforeResolve h tenant c s tracker).2 :=
    traced_beforeResolve hvalid
  -- The last findings that have reached the two incidents.
  have hlast : ∀ {k : Incident} {f : Finding} {ids : List ℕ},
      k ∈ (beforeResolve h tenant c s tracker).2.store.rows → k.rule = "multi_host_down" →
      (f, k.id) ∈ (beforeResolve h tenant c s tracker).2.touched → k.hostIds = some ids →
      ∃ y ∈ ruleMultiHostDown c.observed c.offline,
        (y, k.id) ∈ (beforeResolve h tenant c s tracker).2.touched ∧
          ids = affectedHostIds y.hostIds := by
    intro k f ids hk hkrule hf hids
    obtain ⟨k', hk', hid, hhas, ⟨y, id⟩, hy, rfl, hyrule, hyhosts⟩ := htraced.row _ hf
    obtain rfl := htraced.valid.eq_of_id hk' hk hid
    obtain ⟨r, hyr⟩ := Cycle.mem_allFindings.mp (htraced.mem _ hy)
    have hyrule' : y.rule = "multi_host_down" := (hyrule.trans hhas.2.1.symm).trans hkrule
    refine ⟨y, mem_multiHostDown_of_rule hyr hyrule', hy, ?_⟩
    exact Option.some.inj (hids.symm.trans hyhosts)
  obtain ⟨y, hy, hytouched, rfl⟩ := hlast hi hirule hf hids
  obtain ⟨z, hz, hztouched, rfl⟩ := hlast hj hjrule hg hids'
  have hyz : y ≠ z := by
    rintro rfl
    obtain ⟨i', hi', hiid, hihas, -⟩ := htraced.row _ hytouched
    obtain ⟨j', hj', hjid, hjhas, -⟩ := htraced.row _ hztouched
    obtain rfl := htraced.valid.eq_of_id hi' hi hiid
    obtain rfl := htraced.valid.eq_of_id hj' hj hjid
    exact hne (htraced.valid.keyed _ hi _ hj _ _ hihas hjhas)
  have hnodup : (c.offline.map PingHost.id).Nodup :=
    c.observed.nodup.sublist ((offlineHosts_sublist _ _).map _)
  have hsub : ∀ {ids : List ℕ} {id : ℕ}, id ∈ affectedHostIds ids → id ∈ ids := by
    intro ids id hid
    rw [affectedHostIds, List.mem_insertionSort, List.mem_dedup, List.mem_filter] at hid
    exact hid.1
  exact fun id hid hid' =>
    disjoint_of_mem_ruleMultiHostDown hnodup hy hz hyz (hsub hid) (hsub hid')

/-- An incident that is open after a cycle was so, as it is, before the auto-resolve. -/
theorem mem_beforeResolve {i : Incident} (hsettings : c.settings ≠ none)
    (hi : i ∈ (runCorrelation h tenant c s tracker).2.store.rows) (hlive : i.live = true) :
    i ∈ (beforeResolve h tenant c s tracker).2.store.rows := by
  rw [store_runCorrelation hsettings, store_resolveStep] at hi
  split at hi
  · obtain ⟨k, hk, rfl⟩ := List.mem_map.mp hi
    split at hlive
    · simp [Incident.live, Incident.resolve] at hlive
    · simp_all
  · exact hi

/-- The incident that a finding has reached names the hosts of the finding. -/
theorem exists_reported (hvalid : s.Valid) (hdigest : Function.Injective h.digest16) {f : Finding}
    {id : ℕ} (hf : (f, id) ∈ (beforeResolve h tenant c s tracker).2.touched)
    (hrule : f.rule = "multi_host_down") :
    ∃ i ∈ (beforeResolve h tenant c s tracker).2.store.rows, i.id = id ∧ i.live = true ∧
      i.rule = "multi_host_down" ∧ i.hostIds = some (affectedHostIds f.hostIds) := by
  have htraced : Traced h.digest16 c.allFindings (beforeResolve h tenant c s tracker).2 :=
    traced_beforeResolve hvalid
  obtain ⟨i, hi, hid, ⟨hlive, hirule, hikey⟩, ⟨y, yid⟩, hy, hyid, hyrule, hyhosts⟩ :=
    htraced.row _ hf
  obtain ⟨j, hj, hjid, ⟨-, -, hjkey⟩, -⟩ := htraced.row _ hy
  obtain rfl := htraced.valid.eq_of_id hi hj ((hid.trans hyid.symm).trans hjid.symm)
  refine ⟨i, hi, hid, hlive, hirule.trans hrule, hyhosts.trans (congrArg some ?_)⟩
  have hhost : "multi_host_down" ∈ hostRules := by decide
  -- The last finding that has reached it has the same key, and so the same hosts.
  have hsort := insertionSort_eq_of_hostIdsHash hdigest
    (((Cycle.hash_recorded h.digest16 (htraced.mem _ hy) (by rw [hyrule, hrule]; exact hhost)).trans
      (Option.some.inj (hjkey.symm.trans hikey))).trans
        (Cycle.hash_recorded h.digest16 (htraced.mem _ hf) (hrule ▸ hhost)).symm)
  have hsorted (ids : List ℕ) : (affectedHostIds ids).insertionSort (· ≤ ·) = affectedHostIds ids :=
    (List.pairwise_insertionSort (· ≤ ·) _).insertionSort_eq
  rwa [hsorted, hsorted] at hsort

/-- While three hosts are offline, the auto-resolve leaves the incidents of the rule open. -/
theorem stays_open {i : Incident} (hsettings : c.settings ≠ none) (hoffline : 3 ≤ c.offline.length)
    (hi : i ∈ (beforeResolve h tenant c s tracker).2.store.rows)
    (hrule : i.rule = "multi_host_down") :
    i ∈ (runCorrelation h tenant c s tracker).2.store.rows := by
  have hkeep : shouldResolve h.digest16 c.lookups c.offline c.resolveAt i = false := by
    have hhost : i.rule ∈ hostRules := by
      rw [hrule]
      decide
    unfold shouldResolve
    rw [not_resolvesByTimeout hhost, if_neg Bool.false_ne_true, if_neg (not_skipped hhost)]
    split
    · rfl
    · simp [hostsAreBack, hrule, hoffline]
  rw [store_runCorrelation hsettings, store_resolveStep]
  split_ifs
  · exact List.mem_map.mpr ⟨i, hi, by simp [hkeep]⟩
  · exact hi

/-- **The open incidents about several hosts.** In every table that a tenant has had, no two of them
name the same hosts, and those that one cycle has opened or refreshed have no host in common. A list
that a cycle reports, and for which it opens or refreshes an incident, has an open incident of its
own after it, and whatever incidents of the rule were open before are so still. -/
theorem multi_host_down_distinct {next : ℕ} {events : List TenantEvent}
    (hrun : TenantRun h tenant (.empty next) events s) :
    (∀ i ∈ s.rows, ∀ j ∈ s.rows, i.live = true → j.live = true → i.rule = "multi_host_down" →
      j.rule = "multi_host_down" → ∀ ids, i.hostIds = some ids → j.hostIds = some ids → i = j) ∧
    (∀ (c : Cycle) (tracker : Tracker), ∀ i ∈ (runCorrelation h tenant c s tracker).2.store.rows,
      ∀ j ∈ (runCorrelation h tenant c s tracker).2.store.rows, i ≠ j → i.live = true →
        j.live = true → i.rule = "multi_host_down" → j.rule = "multi_host_down" →
          (∃ f, (f, i.id) ∈ (runCorrelation h tenant c s tracker).2.touched) →
          (∃ f, (f, j.id) ∈ (runCorrelation h tenant c s tracker).2.touched) →
            ∀ ids ids', i.hostIds = some ids → j.hostIds = some ids' → ids.Disjoint ids') ∧
    (Function.Injective h.digest16 → ∀ (c : Cycle) (tracker : Tracker),
      ∀ x ∈ (runCorrelation h tenant c s tracker).2.touched, x.1.rule = "multi_host_down" →
        (∃ i ∈ (runCorrelation h tenant c s tracker).2.store.rows, i.id = x.2 ∧ i.live = true ∧
          i.rule = "multi_host_down" ∧ i.hostIds = some (affectedHostIds x.1.hostIds)) ∧
        ∀ i ∈ s.rows, i.live = true → i.rule = "multi_host_down" →
          ∃ j ∈ (runCorrelation h tenant c s tracker).2.store.rows, j.id = i.id ∧
            j.rule = i.rule ∧ j.hostIdsHash = i.hostIdsHash ∧ j.live = true) := by
  have hvalid := valid_of_run hrun
  refine ⟨fun i hi j hj hilive hjlive hirule hjrule ids hids hids' => ?_, ?_, ?_⟩
  · have hhost : "multi_host_down" ∈ hostRules := by decide
    exact hvalid.keyed i hi j hj _ _
      ⟨hilive, hirule, recorded_of_run hrun i hi (hirule ▸ hhost) ids hids⟩
      ⟨hjlive, hjrule, recorded_of_run hrun j hj (hjrule ▸ hhost) ids hids'⟩
  · rintro c tracker i hi j hj hne hilive hjlive hirule hjrule ⟨f, hf⟩ ⟨g, hg⟩ ids ids' hids hids'
    by_cases hsettings : c.settings = none
    · simp [runCorrelation, hsettings, Progress.start] at hf
    have htouched : (runCorrelation h tenant c s tracker).2.touched =
        (beforeResolve h tenant c s tracker).2.touched := by
      rw [touched_runCorrelation hsettings]
    rw [htouched] at hf hg
    exact disjoint_of_touched hvalid (mem_beforeResolve hsettings hi hilive)
      (mem_beforeResolve hsettings hj hjlive) hne hirule hjrule hf hg hids hids'
  · rintro hdigest c tracker ⟨f, id⟩ hf hrule
    by_cases hsettings : c.settings = none
    · simp [runCorrelation, hsettings, Progress.start] at hf
    rw [touched_runCorrelation hsettings] at hf
    have htraced : Traced h.digest16 c.allFindings (beforeResolve h tenant c s tracker).2 :=
      traced_beforeResolve hvalid
    obtain ⟨r, hr⟩ := Cycle.mem_allFindings.mp (htraced.mem _ hf)
    have hoffline : 3 ≤ c.offline.length :=
      (mem_ruleMultiHostDown (mem_multiHostDown_of_rule hr hrule)).1
    constructor
    · obtain ⟨i, hi, hid, hlive, hirule, hids⟩ := exists_reported hvalid hdigest hf hrule
      exact ⟨i, stays_open hsettings hoffline hi hirule, hid, hlive, hirule, hids⟩
    · intro i hi hlive hirule
      obtain ⟨j, hj, hid, hjrule, hkey, hjlive⟩ :
          ∃ j ∈ (beforeResolve h tenant c s tracker).2.store.rows, j.id = i.id ∧ j.rule = i.rule ∧
            j.hostIdsHash = i.hostIdsHash ∧ j.live = true :=
        exists_beforeResolve hvalid hi hlive (by rw [hirule]; decide)
      exact ⟨j, stays_open hsettings hoffline hj (hjrule.trans hirule), hid, hjrule, hkey, hjlive⟩

/-- Two networks are down in one cycle. -/
def twoNetworksCycle : Cycle :=
  Cycle.ofHosts [.down 1 "10.0.0.1", .down 2 "10.0.0.2", .down 3 "10.0.0.3", .down 4 "10.0.1.4",
    .down 5 "10.0.1.5", .down 6 "10.0.1.6"] (by decide) (by decide) [] 1 100

/-- The state after it. -/
def afterTwoNetworks : Progress :=
  (runCorrelation Hashing.sample.toDigests 1 twoNetworksCycle (.empty 1) .empty).2

/-- The two incidents of such a cycle name different hosts, and are open. -/
theorem multi_host_down_distinct_twoNetworks :
    ∃ i ∈ afterTwoNetworks.store.rows, ∃ j ∈ afterTwoNetworks.store.rows,
      i.hostIds = some [1, 2, 3] ∧ j.hostIds = some [4, 5, 6] ∧ [1, 2, 3].Disjoint [4, 5, 6] ∧
        ∃ k ∈ afterTwoNetworks.store.rows, k.id = i.id ∧ k.live = true := by
  have hrows : ∃ i ∈ afterTwoNetworks.store.rows, ∃ j ∈ afterTwoNetworks.store.rows, i ≠ j ∧
      i.live = true ∧ j.live = true ∧ i.rule = "multi_host_down" ∧ j.rule = "multi_host_down" ∧
      i.hostIds = some [1, 2, 3] ∧ j.hostIds = some [4, 5, 6] ∧
      (∃ x ∈ afterTwoNetworks.touched, x.1.rule = "multi_host_down" ∧ x.2 = i.id) ∧
      ∃ x ∈ afterTwoNetworks.touched, x.2 = j.id := by decide +kernel
  obtain ⟨i, hi, j, hj, hne, hilive, hjlive, hirule, hjrule, hids, hids', ⟨⟨f, _⟩, hf, hrule, rfl⟩,
    ⟨g, _⟩, hg, rfl⟩ := hrows
  have hrun : TenantRun Hashing.sample.toDigests 1 (.empty 1) [] (.empty 1) := .nil _
  obtain ⟨-, hdisjoint, hreported⟩ := multi_host_down_distinct hrun
  obtain ⟨⟨k, hk, hkid, hklive, -⟩, -⟩ :=
    hreported tabulated_injective twoNetworksCycle .empty _ hf hrule
  exact ⟨i, hi, j, hj, hids, hids', hdisjoint twoNetworksCycle .empty i hi j hj hne hilive hjlive
    hirule hjrule ⟨f, hf⟩ ⟨g, hg⟩ _ _ hids hids', k, hk, hkid, hklive⟩

/-- The first of two cycles of an outage that grows, and the second one. -/
def threeDownCycle : Cycle :=
  Cycle.ofHosts [.down 1 "10.0.0.1", .down 2 "10.0.0.2", .down 3 "10.0.0.3"] nodup_threeHosts
    pos_threeHosts [] 1 100

def fourDownCycle : Cycle :=
  Cycle.ofHosts [.down 1 "10.0.0.1", .down 2 "10.0.0.2", .down 3 "10.0.0.3", .down 4 "10.0.0.4"]
    (by decide) (by decide) [] 1 101

/-- The state between the two cycles. -/
def afterThreeDown : Progress :=
  (runCorrelation Hashing.sample.toDigests 1 threeDownCycle (.empty 1) .empty).2

/-- The state after both. -/
def afterFourDown : Progress :=
  (runCorrelation Hashing.sample.toDigests 1 fourDownCycle afterThreeDown.store
    afterThreeDown.tracker).2

/-- The outage has two open incidents, with hosts in common. -/
theorem overlap_fourDown :
    ∃ i ∈ afterFourDown.store.rows, ∃ j ∈ afterFourDown.store.rows,
      i ≠ j ∧ i.live = true ∧ j.live = true ∧ i.rule = "multi_host_down" ∧
        j.rule = "multi_host_down" ∧ i.hostIds = some [1, 2, 3] ∧
          j.hostIds = some [1, 2, 3, 4] := by
  decide +kernel

end Incidents

end Nodeglow.Incidents
