import Nodeglow.Backend.Topology.Build

/-!
# Failures below failures

An offline host is taken for a cascaded failure when one of its ancestors is offline, and for a
primary one otherwise. This names a root of every outage as long as no offline host is its own
ancestor. The ancestors of a host on a cycle have the host itself among them, so such a host is
cascaded, and a cascaded host below it has no primary host above it (`findsRoots_iff`). Parents that
were entered by hand can form a cycle (`not_findsRoots_sample`).

Source: `backend/services/topology.py`, lines 241–259.
-/

namespace Nodeglow.HostTopology

open ParentMap

/-- The cascaded failures of `filter_upstream_failures`. -/
def IsCascaded (offlineHostIds : Finset ℤ) (topology : Topology) (host : ℤ) : Prop :=
  ∃ a ∈ getAncestors topology host, a ∈ offlineHostIds

instance (offlineHostIds : Finset ℤ) (topology : Topology) :
    DecidablePred (IsCascaded offlineHostIds topology) := fun host =>
  List.decidableBEx (· ∈ offlineHostIds) (getAncestors topology host)

/-- `filter_upstream_failures`: the primary failures and the cascaded ones. -/
def filterUpstreamFailures (offlineHostIds : Finset ℤ) (topology : Topology) :
    Finset ℤ × Finset ℤ :=
  (offlineHostIds.filter fun host => ¬IsCascaded offlineHostIds topology host,
    offlineHostIds.filter (IsCascaded offlineHostIds topology))

/-- **Roots are found**: the offline hosts are parted; a cascaded host has another offline host
among its ancestors, and a primary one; and where a host is offline there is a primary one. -/
structure FindsRoots (offline : Finset ℤ) (topology : Topology) : Prop where
  union : (filterUpstreamFailures offline topology).1 ∪ (filterUpstreamFailures offline topology).2
    = offline
  disjoint : Disjoint (filterUpstreamFailures offline topology).1
    (filterUpstreamFailures offline topology).2
  upstream : ∀ host ∈ (filterUpstreamFailures offline topology).2,
    ∃ a ∈ getAncestors topology host, a ∈ offline ∧ a ≠ host
  root : ∀ host ∈ (filterUpstreamFailures offline topology).2,
    ∃ a ∈ getAncestors topology host, a ∈ (filterUpstreamFailures offline topology).1
  nonempty : offline.Nonempty → (filterUpstreamFailures offline topology).1.Nonempty

variable {offline : Finset ℤ} {topology : Topology} {host : ℤ}

theorem mem_primary : host ∈ (filterUpstreamFailures offline topology).1 ↔
    host ∈ offline ∧ ∀ a ∈ offline, ¬Above topology.parent host a := by
  rw [filterUpstreamFailures, Finset.mem_filter]
  refine and_congr_right fun _ => ⟨fun hnot a ha habove => ?_, fun hnone => ?_⟩
  · exact hnot ⟨a, mem_getAncestors.mpr habove, ha⟩
  · rintro ⟨a, habove, ha⟩
    exact hnone a ha (mem_getAncestors.mp habove)

theorem mem_cascaded : host ∈ (filterUpstreamFailures offline topology).2 ↔
    host ∈ offline ∧ ∃ a ∈ offline, Above topology.parent host a := by
  rw [filterUpstreamFailures, Finset.mem_filter]
  refine and_congr_right fun _ => ⟨?_, ?_⟩
  · rintro ⟨a, habove, ha⟩
    exact ⟨a, ha, mem_getAncestors.mp habove⟩
  · rintro ⟨a, ha, habove⟩
    exact ⟨a, mem_getAncestors.mpr habove, ha⟩

/-- An offline host on a cycle has no primary host above it: what is above it is below it. -/
theorem not_root_of_cycle (hoffline : host ∈ offline) (hcycle : Above topology.parent host host) :
    ¬∃ a ∈ getAncestors topology host, a ∈ (filterUpstreamFailures offline topology).1 := by
  rintro ⟨a, habove, hprimary⟩
  have hback := Above.swap hcycle (mem_getAncestors.mp habove)
  exact (mem_primary.mp hprimary).2 host hoffline hback

/-- Without offline hosts on cycles, there is a primary host above a cascaded one. -/
theorem exists_root (hoffline : ∀ x ∈ offline, ¬Above topology.parent x x)
    (h : host ∈ (filterUpstreamFailures offline topology).2) :
    ∃ a ∈ getAncestors topology host, a ∈ (filterUpstreamFailures offline topology).1 := by
  obtain ⟨-, a, ha, habove⟩ := mem_cascaded.mp h
  obtain ⟨root, hroot, hrootAbove, htop⟩ := exists_top hoffline ha habove
  exact ⟨root, mem_getAncestors.mpr hrootAbove, mem_primary.mpr ⟨hroot, htop⟩⟩

/-- **Roots are found** if and only if no offline host is its own ancestor. -/
theorem findsRoots_iff (offline : Finset ℤ) (topology : Topology) :
    FindsRoots offline topology ↔ ∀ host ∈ offline, host ∉ getAncestors topology host := by
  constructor
  · intro h host hoffline hself
    have hcycle := mem_getAncestors.mp hself
    exact not_root_of_cycle hoffline hcycle
      (h.root host (mem_cascaded.mpr ⟨hoffline, host, hoffline, hcycle⟩))
  · intro hnone
    have hoffline : ∀ x ∈ offline, ¬Above topology.parent x x := fun x hx hcycle =>
      hnone x hx (mem_getAncestors.mpr hcycle)
    constructor
    · rw [filterUpstreamFailures, Finset.union_comm, Finset.filter_union_filter_not_eq]
    · rw [filterUpstreamFailures]
      exact (Finset.disjoint_filter_filter_not _ _ _).symm
    · intro host hhost
      obtain ⟨hmem, a, ha, habove⟩ := mem_cascaded.mp hhost
      refine ⟨a, mem_getAncestors.mpr habove, ha, ?_⟩
      rintro rfl
      exact hoffline a hmem habove
    · exact fun host => exists_root hoffline
    · rintro ⟨host, hhost⟩
      by_cases hcascaded : host ∈ (filterUpstreamFailures offline topology).2
      · obtain ⟨root, -, hroot⟩ := exists_root hoffline hcascaded
        exact ⟨root, hroot⟩
      · refine ⟨host, mem_primary.mpr ⟨hhost, fun a ha habove => hcascaded ?_⟩⟩
        exact mem_cascaded.mpr ⟨hhost, a, ha, habove⟩

/-- Two hosts that were entered as the parents of each other. -/
def mutualHosts : List PingHost :=
  [⟨1, "a", "10.0.0.1", none, some 2⟩, ⟨2, "b", "10.0.0.2", none, some 1⟩]

/-- **Both hosts of a cycle are cascaded**, and no root is found. -/
theorem not_findsRoots_sample : ∃ out, buildTopology .asciiOnly mutualHosts [] = some out ∧
    ¬FindsRoots {1, 2} out.topology := by
  refine ⟨manualBuild mutualHosts, rfl, fun h => ?_⟩
  have hone : (manualTopology mutualHosts).parent 1 = some 2 := parent_eq_some.mpr (by decide)
  have htwo : (manualTopology mutualHosts).parent 2 = some 1 := parent_eq_some.mpr (by decide)
  have hcycle : Above (manualTopology mutualHosts).parent 1 1 :=
    (above_of_parent hone).trans (above_of_parent htwo)
  have hcascaded := mem_cascaded.mpr ⟨show (1 : ℤ) ∈ ({1, 2} : Finset ℤ) by decide, 1, by decide,
    hcycle⟩
  exact not_root_of_cycle (by decide) hcycle (h.root 1 hcascaded)

end Nodeglow.HostTopology
