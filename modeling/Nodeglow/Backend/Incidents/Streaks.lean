import Nodeglow.Backend.Incidents.Incident

/-!
# Streaks of the correlation rules

A rule opens an incident only after it has matched for the same hosts in several cycles in a row.
The counters are kept in one dictionary for all tenants and rules: a match adds one to its counter,
and the end of a complete cycle deletes those of the tenant's counters for which there was no match.

## Main results

* `counts_trackAll`, `counts_cycle` — what a complete cycle does to a counter.

Source: `backend/services/correlation.py`, lines 43–98.
-/

namespace Nodeglow.Incidents

/-- The key of a counter: tenant, rule, and the hash of the hosts. -/
structure HitKey where
  tenant : ℕ
  rule : String
  hash : String
deriving DecidableEq, Repr

/-- `_rule_hit_counts`, where a missing key counts zero, and `_current_cycle_hits`. -/
structure Tracker where
  counts : HitKey → ℕ
  hits : List HitKey

namespace Tracker

/-- The dictionaries of a new process. -/
def empty : Tracker := ⟨fun _ => 0, []⟩

/-- A match of a key. -/
def hit (tr : Tracker) (k : HitKey) : Tracker where
  counts := Function.update tr.counts k (tr.counts k + 1)
  hits := k :: tr.hits

end Tracker

section Operations

variable (digest : String → String) (tenant : ℕ)

/-- The key of a rule and its hosts. -/
def hitKey (rule : String) (hosts : List ℕ) : HitKey := ⟨tenant, rule, hostIdsHash digest hosts⟩

/-- `_track_rule_hit`. -/
def trackRuleHit (rule : String) (hosts : List ℕ) (minCycles : ℕ) (tr : Tracker) : Bool × Tracker :=
  let tr := tr.hit (hitKey digest tenant rule hosts)
  (minCycles ≤ tr.counts (hitKey digest tenant rule hosts), tr)

/-- `_clear_cycle_hits`. -/
def clearCycleHits (tr : Tracker) : Tracker :=
  { tr with hits := tr.hits.filter fun k => k.tenant ≠ tenant }

/-- `_prune_stale_hits`. -/
def pruneStaleHits (tr : Tracker) : Tracker :=
  clearCycleHits tenant
    { tr with counts := fun k => if k.tenant = tenant ∧ k ∉ tr.hits then 0 else tr.counts k }

end Operations

/-! ### One cycle -/

/-- The matches of a cycle, one after the other. -/
def trackAll (keys : List HitKey) (tr : Tracker) : Tracker := keys.foldl Tracker.hit tr

variable {tr : Tracker} {k : HitKey} {keys : List HitKey} {tenant : ℕ}

theorem counts_trackAll (keys : List HitKey) (tr : Tracker) (k : HitKey) :
    (trackAll keys tr).counts k = tr.counts k + keys.count k := by
  induction keys generalizing tr with
  | nil => rfl
  | cons a keys ih =>
    rw [trackAll, List.foldl_cons, ← trackAll, ih, List.count_cons]
    by_cases hk : k = a
    · simp [Tracker.hit, hk, Nat.add_assoc, Nat.add_comm]
    · simp [Tracker.hit, hk, Ne.symm hk]

theorem hits_trackAll (keys : List HitKey) (tr : Tracker) (k : HitKey) :
    k ∈ (trackAll keys tr).hits ↔ k ∈ keys ∨ k ∈ tr.hits := by
  induction keys generalizing tr with
  | nil => simp [trackAll]
  | cons a keys ih =>
    rw [trackAll, List.foldl_cons, ← trackAll, ih]
    simp only [Tracker.hit, List.mem_cons]
    tauto

/-- **What a complete cycle of a tenant does to the counters.** Those of other tenants stay, that
of a key without a match is deleted, and every other one grows by the number of matches. -/
theorem counts_cycle (htenant : ∀ a ∈ keys, a.tenant = tenant)
    (hhits : ∀ a ∈ tr.hits, a.tenant ≠ tenant) (k : HitKey) :
    (pruneStaleHits tenant (trackAll keys tr)).counts k =
      if k.tenant ≠ tenant then tr.counts k
      else if k ∈ keys then tr.counts k + keys.count k else 0 := by
  simp only [pruneStaleHits, clearCycleHits, hits_trackAll, counts_trackAll]
  by_cases hk : k.tenant = tenant
  · have hold : k ∉ tr.hits := fun h => hhits k h hk
    by_cases hmem : k ∈ keys <;> simp [hk, hold, hmem]
  · have hmem : k ∉ keys := fun h => hk (htenant k h)
    simp [hk, List.count_eq_zero_of_not_mem hmem]

/-- After a complete cycle of a tenant none of its matches is left. -/
theorem hits_cycle (tr : Tracker) (tenant : ℕ) :
    ∀ a ∈ (pruneStaleHits tenant tr).hits, a.tenant ≠ tenant := by
  intro a ha
  simpa using (List.mem_filter.mp ha).2

end Nodeglow.Incidents
