import Nodeglow.Backend.Jobs.FairShareSafety
import Nodeglow.Foundation.RoundRobin

/-!
# Fairness of the fair-share limiter

A tenant is eligible while it has a live waiter and holds fewer slots than its cap. As long as a
tenant `B` is eligible, `_dispatch` neither drops nor passes over it, so it keeps its place in the
order while whoever is served goes behind it: another tenant `A` gets at most the one slot of its
turn before `B`. In terms of `RoundRobin.turnsBefore`, the slots that `A` gets and the turns that
it has left before `B` never add up to more than one (`FairSince`).

Within one tenant the queue is first in, first out, and calls are numbered as they are made
(`Fifo`).

## Main results

* `FairSince.step`, `Fifo.step`.
* `fairness` — every stretch of every run.

Source: `backend/services/tenant_jobs.py`, lines 632–682.
-/

namespace Nodeglow.FairShare

open RoundRobin

variable {Tenant : Type} [DecidableEq Tenant] (L : Setup Tenant)

/-- The tenant has a live waiter and holds fewer slots than its cap. -/
def Eligible (B : Tenant) (s : State Tenant) : Prop := s.HasLiveWaiter B ∧ s.held B < L.cap B

/-- The tenant is eligible when the event has been booked, before slots are handed out. -/
def EligibleAt (B : Tenant) (s : State Tenant) (e : Event Tenant) : Prop :=
  ∃ b, s.book e = some b ∧ Eligible L B b

/-- The tenants of the grants after the first `k`. -/
def State.grantedSince (k : ℕ) (s : State Tenant) : List Tenant := (s.grants.drop k).map Prod.fst

/-- Since the first `k` grants, `A` was granted at most one slot before `B`; and while `B` waits,
what `A` was granted and its turns before `B` add up to one at most. -/
structure FairSince (A B : Tenant) (k : ℕ) (s : State Tenant) : Prop where
  le_length : k ≤ s.grants.length
  count_le : ∀ p, p <+: s.grantedSince k → B ∉ p → p.count A ≤ 1
  count_add_turnsBefore_le :
    B ∉ s.grantedSince k → (s.grantedSince k).count A + turnsBefore B A s.order ≤ 1

variable {L} {A B : Tenant} {k : ℕ} {s s' : State Tenant}

theorem fairSince_self (h : Inv L s) (A B : Tenant) : FairSince A B s.grants.length s where
  le_length := le_rfl
  count_le p hp _ := by
    rw [State.grantedSince, List.drop_length, List.map_nil, List.prefix_nil] at hp
    simp [hp]
  count_add_turnsBefore_le _ := by
    simpa [State.grantedSince] using turnsBefore_le_one h.order_nodup B A

/-- The bound only depends on the grants and the order. -/
theorem FairSince.congr (h : FairSince A B k s) (hgrants : s'.grants = s.grants)
    (horder : B ∉ s.grantedSince k → turnsBefore B A s'.order ≤ turnsBefore B A s.order) :
    FairSince A B k s' := by
  have hsince : s'.grantedSince k = s.grantedSince k := by
    rw [State.grantedSince, hgrants]
    rfl
  refine ⟨hgrants ▸ h.le_length, hsince ▸ h.count_le, fun hB => ?_⟩
  rw [hsince] at hB ⊢
  exact (Nat.add_le_add_left (horder hB) _).trans (h.count_add_turnsBefore_le hB)

theorem FairSince.grantedSince_grant (h : FairSince A B k s) (tid : Tenant) (rest : List Tenant)
    (n : ℕ) (queue : List ℕ) :
    (grant s tid rest n queue).grantedSince k = s.grantedSince k ++ [tid] := by
  simp [State.grantedSince, grant, List.drop_append_of_le_length h.le_length]

/-- A grant takes one turn off, if it is a turn of `A`, and ends the stretch, if it is one of
`B`. -/
theorem FairSince.grant (h : FairSince A B k s) {tid : Tenant} {rest : List Tenant} {n : ℕ}
    {queue : List ℕ} (horder : s.order = tid :: rest)
    (hmem : B ∉ s.grantedSince k → B ∈ s.order) : FairSince A B k (grant s tid rest n queue) := by
  have hsince := h.grantedSince_grant tid rest n queue
  have hsum : B ∉ (FairShare.grant s tid rest n queue).grantedSince k →
      ((FairShare.grant s tid rest n queue).grantedSince k).count A +
        turnsBefore B A (FairShare.grant s tid rest n queue).order ≤ 1 := by
    intro hB
    rw [hsince, List.mem_append, not_or, List.mem_singleton] at hB
    have hle := h.count_add_turnsBefore_le hB.1
    have hrest : B ∈ rest := by
      have := hmem hB.1
      rw [horder, List.mem_cons] at this
      exact this.resolve_left hB.2
    have horder' : turnsBefore B A (FairShare.grant s tid rest n queue).order =
        turnsBefore B A rest := by
      by_cases hq : queue = []
      · simp [FairShare.grant, hq]
      · simpa [FairShare.grant, hq] using turnsBefore_append hrest A [tid]
    rw [horder, turnsBefore_cons (Ne.symm hB.2)] at hle
    rw [hsince, horder', List.count_append]
    omega
  refine ⟨by simpa [FairShare.grant] using h.le_length.trans (Nat.le_succ _), fun p hp hB => ?_, hsum⟩
  rcases List.prefix_concat_iff.mp (hsince ▸ hp) with rfl | hp
  · have := hsum (hsince ▸ hB)
    rw [hsince] at this
    omega
  · exact h.count_le p hp hB

/-- During a stretch, `B` is eligible until it is granted a slot. -/
def Waits (L : Setup Tenant) (A B : Tenant) (k : ℕ) (s : State Tenant) : Prop :=
  Inv L s ∧ FairSince A B k s ∧ (B ∉ s.grantedSince k → Eligible L B s)

/-- **One turn** while `B` waits. -/
theorem Waits.turn (h : Waits L A B k s) (hfree : s.inUse < L.total) :
    Waits L A B k (turn L s).1 := by
  obtain ⟨hinv, hfair, helig⟩ := h
  refine ⟨hinv.turn hfree, ?_⟩
  cases horder : s.order with
  | nil =>
    rw [turn_of_order_nil horder]
    exact ⟨hfair, helig⟩
  | cons tid rest =>
    have hmem (hB : B ∉ s.grantedSince k) : B ∈ s.order :=
      hinv.mem_order_of_hasLiveWaiter (helig hB).1
    rcases turn_cases (L := L) horder with ⟨hpruned, hturn⟩ | ⟨n, queue, hpruned, hcap, hturn⟩ |
      ⟨n, queue, hpruned, hcap, hturn⟩ <;> rw [hturn]
    · -- a dropped tenant has no live waiter, so it is not `B`
      refine ⟨hfair.congr rfl fun hB => ?_, helig⟩
      have htid : tid ≠ B := by
        rintro rfl
        obtain ⟨m, htenant, hlive⟩ := (helig hB).1
        simpa [hpruned] using hinv.mem_pruned htenant hlive
      rw [horder, turnsBefore_cons htid]
      exact Nat.le_add_right ..
    · -- a tenant that is passed over is at its cap, so it is not `B`
      refine ⟨hfair.congr rfl fun hB => ?_, helig⟩
      have htid : tid ≠ B := by
        rintro rfl
        exact absurd hcap (not_le.mpr (helig hB).2)
      have hrest : B ∈ rest := by
        have := hmem hB
        rw [horder, List.mem_cons] at this
        exact this.resolve_left htid.symm
      rw [horder, turnsBefore_cons htid, turnsBefore_append hrest]
      exact Nat.le_add_right ..
    · refine ⟨hfair.grant horder hmem, fun hB => ?_⟩
      rw [hfair.grantedSince_grant, List.mem_append, not_or, List.mem_singleton] at hB
      obtain ⟨⟨m, htenant, hlive⟩, hheld⟩ := helig hB.1
      have hqueued := hinv.queued tid n
        ((s.pruned_sublist tid).subset (hpruned ▸ List.mem_cons_self))
      have hmn : m ≠ n := by
        rintro rfl
        exact hB.2 (Option.some.inj (htenant.symm.trans hqueued.1))
      refine ⟨⟨m, htenant, ?_⟩, ?_⟩
      · simpa [State.Live, FairShare.grant, hmn] using hlive
      · simpa [FairShare.grant, hB.2] using hheld

/-- `_dispatch` while `B` waits. -/
theorem Waits.dispatch (h : Waits L A B k s) : Waits L A B k (dispatch L s) :=
  dispatch_induction (P := Waits L A B k) (fun _ hfree hw => hw.turn hfree) h

/-- **One event** of a stretch. -/
theorem FairSince.step {e : Event Tenant} (hinv : Inv L s) (h : FairSince A B k s)
    (helig : EligibleAt L B s e) (hstep : Step L s e s') : FairSince A B k s' := by
  obtain ⟨b, hbook, helig⟩ := helig
  rcases step_cases hstep with ⟨t, hb, rfl⟩ | ⟨n, hlive, hb, rfl⟩ |
    ⟨n, p, hphase, hfut, hp, hb, rfl⟩ | ⟨n, t, hphase, htenant, hb, rfl⟩ <;>
    obtain rfl := Option.some.inj (hbook.symm.trans hb)
  · have hfair : FairSince A B k (s.enqueue t) := by
      refine h.congr rfl fun _ => ?_
      have hmem := (hinv.enqueue t).mem_order_of_hasLiveWaiter helig.1
      simp only [State.enqueue] at hmem ⊢
      split_ifs at hmem ⊢
      · exact (turnsBefore_concat hmem A).le
      · exact le_rfl
    have hwaits : Waits L A B k (s.enqueue t) := ⟨hinv.enqueue t, hfair, fun _ => helig⟩
    rw [State.returnGranted]
    split_ifs
    · exact hwaits.dispatch.2.1.congr rfl fun _ => le_rfl
    · exact hwaits.dispatch.2.1
  · exact h.congr rfl fun _ => le_rfl
  · exact h.congr rfl fun _ => le_rfl
  · have hwaits : Waits L A B k (s.giveBack n t) :=
      ⟨hinv.giveBack hphase htenant, h.congr rfl fun _ => le_rfl, fun _ => helig⟩
    exact hwaits.dispatch.2.1

/-! ### First in, first out -/

/-- The calls of each tenant are granted in the order in which they were made, and before those
that still wait. -/
structure Fifo (s : State Tenant) : Prop where
  lt_calls : ∀ g ∈ s.grants, g.2 < s.calls
  lt_queued : ∀ g ∈ s.grants, ∀ n ∈ s.queue g.1, g.2 < n
  sorted : ∀ t, ((s.grants.filter fun g => g.1 = t).map Prod.snd).Pairwise (· < ·)

theorem fifo_init : Fifo (State.init Tenant) := by
  constructor <;> simp [State.init]

/-- Fewer futures in the queues. -/
theorem Fifo.of_subset (h : Fifo s) (hgrants : s'.grants = s.grants) (hcalls : s'.calls = s.calls)
    (hqueue : ∀ t, s'.queue t ⊆ s.queue t) : Fifo s' where
  lt_calls g hg := hcalls ▸ h.lt_calls g (hgrants ▸ hg)
  lt_queued g hg n hn := h.lt_queued g (hgrants ▸ hg) n (hqueue g.1 hn)
  sorted t := hgrants ▸ h.sorted t

/-- The head of a queue is granted after the calls before it and before those behind it. -/
theorem Fifo.grant (hinv : Inv L s) (h : Fifo s) {tid : Tenant} {rest : List Tenant} {n : ℕ}
    {queue : List ℕ} (hpruned : s.pruned tid = n :: queue) : Fifo (grant s tid rest n queue) := by
  have hsub : (n :: queue).Sublist (s.queue tid) := hpruned ▸ s.pruned_sublist tid
  have hn : n ∈ s.queue tid := hsub.subset List.mem_cons_self
  refine ⟨fun g hg => ?_, fun g hg m hm => ?_, fun t => ?_⟩
  · rcases List.mem_append.mp hg with hg | hg
    · exact h.lt_calls g hg
    · rw [List.mem_singleton.mp hg]
      exact hinv.lt_of_mem_queue hn
  · rw [queue_grant] at hm
    rcases List.mem_append.mp hg with hg | hg
    · split_ifs at hm with ht
      · exact h.lt_queued g hg m (ht ▸ hsub.subset (List.mem_cons_of_mem n hm))
      · exact h.lt_queued g hg m hm
    · rw [List.mem_singleton.mp hg] at hm ⊢
      rw [if_pos rfl] at hm
      exact List.rel_of_pairwise_cons ((hinv.queue_sorted tid).sublist hsub) hm
  · simp only [FairShare.grant, List.filter_append, List.map_append]
    refine List.pairwise_append.mpr ⟨h.sorted t, ?_, fun m hm m' hm' => ?_⟩
    · exact (List.pairwise_singleton _ n).sublist (List.filter_sublist.map Prod.snd)
    · simp only [List.mem_map, List.mem_filter, List.mem_singleton, decide_eq_true_eq] at hm hm'
      obtain ⟨g, ⟨hg, hgt⟩, rfl⟩ := hm
      obtain ⟨g', ⟨rfl, hgt'⟩, rfl⟩ := hm'
      exact h.lt_queued g hg n (hgt.trans hgt'.symm ▸ hn)

theorem Fifo.turn (hinv : Inv L s) (h : Fifo s) : Fifo (turn L s).1 := by
  cases horder : s.order with
  | nil => rwa [turn_of_order_nil horder]
  | cons tid rest =>
    rcases turn_cases (L := L) horder with ⟨hpruned, hturn⟩ | ⟨n, queue, hpruned, -, hturn⟩ |
      ⟨n, queue, hpruned, -, hturn⟩ <;> rw [hturn]
    · refine h.of_subset rfl rfl fun t => ?_
      by_cases ht : t = tid
      · simp [State.queue, ht]
      · simp [State.queue, ht]
    · refine h.of_subset rfl rfl fun t => ?_
      by_cases ht : t = tid
      · subst ht
        simpa [State.queue, hpruned] using (s.pruned_sublist t).subset
      · simp [State.queue, ht]
    · exact h.grant hinv hpruned

theorem Fifo.dispatch (hinv : Inv L s) (h : Fifo s) : Fifo (dispatch L s) :=
  (dispatch_induction (P := fun u => Inv L u ∧ Fifo u)
    (fun _ hfree hu => ⟨hu.1.turn hfree, hu.2.turn hu.1⟩) ⟨hinv, h⟩).2

theorem Fifo.enqueue (h : Fifo s) (t : Tenant) : Fifo (s.enqueue t) where
  lt_calls g hg := (h.lt_calls g hg).trans (Nat.lt_succ_self _)
  lt_queued g hg n hn := by
    rw [queue_enqueue] at hn
    split_ifs at hn with ht
    · rcases List.mem_append.mp hn with hn | hn
      · exact h.lt_queued g hg n (ht ▸ hn)
      · rw [List.mem_singleton.mp hn]
        exact h.lt_calls g hg
    · exact h.lt_queued g hg n hn
  sorted := h.sorted

/-- **One event** keeps the order of each tenant's calls. -/
theorem Fifo.step {e : Event Tenant} (hinv : Inv L s) (h : Fifo s) (hstep : Step L s e s') :
    Fifo s' := by
  rcases step_cases hstep with ⟨t, -, rfl⟩ | ⟨n, -, -, rfl⟩ | ⟨n, p, -, -, -, -, rfl⟩ |
    ⟨n, t, hphase, htenant, -, rfl⟩
  · have hd := (h.enqueue t).dispatch (hinv.enqueue t)
    rw [State.returnGranted]
    split_ifs
    · exact hd.of_subset rfl rfl fun _ => List.Subset.refl _
    · exact hd
  · exact h.of_subset rfl rfl fun _ => List.Subset.refl _
  · exact h.of_subset rfl rfl fun _ => List.Subset.refl _
  · have hgive : Fifo (s.giveBack n t) := h.of_subset rfl rfl fun _ => List.Subset.refl _
    exact hgive.dispatch (hinv.giveBack hphase htenant)

/-! ### Runs -/

/-- **Fairness.** After any run, take any stretch of further events during which `B` is eligible.
Of the slots granted during the stretch, at most one goes to `A` before one goes to `B`. And in
every state the calls of each tenant have been granted in the order in which they were made, and
before those that still wait. -/
theorem fairness {l l' : List (Event Tenant)} {s u : State Tenant}
    (hrun : Run (Step L) (State.init Tenant) l s)
    (hstretch : Run (Guarded (EligibleAt L B) (Step L)) s l' u) :
    (∀ p, p <+: u.grantedSince s.grants.length → B ∉ p → p.count A ≤ 1) ∧
    (∀ t, ((u.grants.filter fun g => g.1 = t).map Prod.snd).Pairwise (· < ·)) ∧
    (∀ g ∈ u.grants, ∀ n, u.tenant n = some g.1 → u.Live n → g.2 < n) := by
  -- along both runs the limiter is safe; along the stretch it is also fair
  let I (v : State Tenant) : Prop := (Inv L v ∧ Conserving L v) ∧ Fifo v
  have hI (v : State Tenant) (e : Event Tenant) (v' : State Tenant) (hv : I v)
      (hstep : Step L v e v') : I v' :=
    ⟨hv.1.1.step hv.1.2 hstep, hv.2.step hv.1.1 hstep⟩
  have hs : I s := hrun.invariant hI ⟨⟨inv_init, conserving_init⟩, fifo_init⟩
  have hu : I u ∧ FairSince A B s.grants.length u :=
    hstretch.invariant (I := fun v => I v ∧ FairSince A B s.grants.length v)
      (fun v e v' hv hstep => ⟨hI v e v' hv.1 hstep.2, hv.2.step hv.1.1.1 hstep.1 hstep.2⟩)
      ⟨hs, fairSince_self hs.1.1 A B⟩
  refine ⟨hu.2.count_le, hu.1.2.sorted, fun g hg n htenant hlive => ?_⟩
  exact hu.1.2.lt_queued g hg n (hu.1.1.1.live_queued g.1 n htenant hlive)

/-- Tenant 1 holds the only slot and has two more calls waiting when tenant 2 calls. -/
def sampleWaiting : List (Event ℕ) := [.acquire 1, .acquire 1, .acquire 1, .acquire 2]

/-- What the next step shows of tenant 2 and of the slots that are handed on. -/
def sampleView (s : State ℕ) : Option (Bool × List ℕ) := do
  let b ← s.book (.release 0)
  let u ← s.step sampleSetup (.release 0)
  return (decide ((b.tenant 3 = some 2 ∧ b.phase 3 = .waiting ∧ b.fut 3 = .pending) ∧
    b.held 2 < sampleSetup.cap 2), u.grantedSince s.grants.length)

/-- Tenant 1 gets the slot back once before tenant 2 is served. -/
theorem fairness_one_slot :
    ∃ s u : State ℕ,
      sampleWaiting.foldlM (State.step sampleSetup) (State.init ℕ) = some s ∧
      s.step sampleSetup (.release 0) = some u ∧
      u.grantedSince s.grants.length = [1] ∧
      (u.grantedSince s.grants.length).count 1 ≤ 1 := by
  have hview : (sampleWaiting.foldlM (State.step sampleSetup) (State.init ℕ)).bind sampleView =
      some (true, [1]) := by decide
  obtain ⟨s, hs, hview⟩ := Option.bind_eq_some_iff.mp hview
  obtain ⟨b, hb, hview⟩ := Option.bind_eq_some_iff.mp hview
  obtain ⟨u, hu, hview⟩ := Option.bind_eq_some_iff.mp hview
  obtain ⟨helig, hgrants⟩ := Prod.mk.inj (Option.some.inj hview)
  obtain ⟨⟨htenant, hlive⟩, hheld⟩ := of_decide_eq_true helig
  have hstep : Guarded (EligibleAt sampleSetup 2) (Step sampleSetup) s (.release 0) u :=
    ⟨⟨b, hb, ⟨3, htenant, hlive⟩, hheld⟩, hu⟩
  refine ⟨s, u, hs, hu, hgrants, ?_⟩
  refine (fairness (Run.of_foldlM hs) (.single hstep)).1 _ (List.prefix_refl _) ?_
  rw [hgrants]
  decide

end Nodeglow.FairShare
