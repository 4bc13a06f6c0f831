import Mathlib.Tactic.Linarith
import Nodeglow.Foundation.Lease
import Nodeglow.Foundation.Run

/-!
# Leader election of the scheduler

Every instance runs a loop that acquires or renews a lease in Redis and sleeps. The answer decides
whether the instance is the leader and its scheduler's jobs run; an error leaves that as it is. The
script that acquires the lease is executed in one step, but its answer reaches the instance at some
later time, or never: the call may fail before or after the execution, and a request that its
instance has given up may still be executed.

Leadership is a flag of the instance, and nothing takes it back when the lease runs out. Two
instances lead at the same time only after a script has found a lease that had run out while an
instance other than its own was still leading or was about to (`Cluster.HandedOver`,
`Cluster.leaders_unique`). This happens to a leader that is cut off from Redis
(`Cluster.two_leaders_after_cutoff`).

## Main results

* `Cluster.Exclusive.step`, `Cluster.leaders_unique` — one event, and whole runs.

Source: `ee/backend/nodeglow_ee/ha/coordinator.py`, lines 21–94;
`ee/backend/nodeglow_ee/ha/leader_lock.py`, lines 22–84; `backend/scheduler.py`, lines 1433–1479.
-/

namespace Nodeglow.Ha

/-- `LEADER_TTL_SECONDS`. -/
def leaderTtlSeconds : ℚ := 30

/-- `LEADER_RENEW_SECONDS`. -/
def leaderRenewSeconds : ℚ := 10

/-! ### The lease -/

/-- `_ACQUIRE_LUA` on the key `SCHEDULER_LEADER_LOCK`, whose value is the id of its holder. -/
def acquireLua (key : Option (Lease String ℚ)) (instanceId : String) (now : ℚ) :
    Option (Lease String ℚ) × Bool :=
  Lease.acquire key instanceId now (now + leaderTtlSeconds)

/-! ### Instances -/

/-- Where the loop of an instance is. -/
inductive Phase
  /-- Not started, or stopped. -/
  | off
  /-- The request is on its way, the script not yet executed. -/
  | calling
  /-- The script is executed, its answer on its way. -/
  | answered (leader : Bool)
  | sleeping (wakeAt : ℚ)
  deriving DecidableEq, Repr

/-- `LeaderElectionCoordinator`, with its scheduler. -/
structure Coordinator where
  isLeader : Bool
  /-- The scheduler runs its jobs: it is started and not paused. -/
  resumed : Bool
  phase : Phase
  /-- The requests that were given up before Redis executed them. -/
  late : ℕ
  deriving DecidableEq, Repr

namespace Coordinator

variable (c : Coordinator)

/-- `start`: the scheduler is started paused, and the loop makes its first call. -/
def start : Coordinator := { c with isLeader := false, resumed := false, phase := .calling }

/-- `apply_leadership`. -/
def applyLeadership (leader : Bool) : Coordinator :=
  if leader && !c.isLeader then { c with resumed := true, isLeader := true }
  else if !leader && c.isLeader then { c with resumed := false, isLeader := false }
  else c

/-- The requests that may still be executed after the loop has given up its call. -/
def lateAfterGivingUp : ℕ := if c.phase = .calling then c.late + 1 else c.late

/-- `stop`, and the end of the scheduler in `stop_scheduler`. -/
def stop : Coordinator :=
  { c with phase := .off, resumed := false, late := c.lateAfterGivingUp }

/-- The instance runs jobs, or will when the answer to its call arrives. -/
def Leading : Prop := c.resumed = true ∨ c.phase = .answered true

end Coordinator

/-- All instances by their id, and the key in Redis. -/
structure Cluster where
  now : ℚ
  key : Option (Lease String ℚ)
  instances : String → Coordinator

inductive Event
  /-- Time passes. -/
  | elapse (seconds : ℚ)
  | start (id : String)
  | stop (id : String)
  /-- Redis executes the script for the call of an instance. -/
  | execute (id : String)
  /-- Redis executes the script for a call that was given up. -/
  | executeLate (id : String)
  /-- The answer reaches the instance. -/
  | deliver (id : String)
  /-- The call raises: the error is logged. -/
  | fail (id : String)
  /-- The loop begins again. -/
  | wake (id : String)
  deriving DecidableEq, Repr

namespace Cluster

variable (s : Cluster)

/-- No instance is started. The key may still hold a lease of an earlier time. -/
def init (now : ℚ) (key : Option (Lease String ℚ)) : Cluster :=
  ⟨now, key, fun _ => ⟨false, false, .off, 0⟩⟩

def set (id : String) (c : Coordinator) : Cluster :=
  { s with instances := Function.update s.instances id c }

/-- The script of an instance is executed. -/
def acquire (id : String) : Option (Lease String ℚ) × Bool := acquireLua s.key id s.now

/-- One event; it has no value where the event cannot happen. -/
def step : Event → Option Cluster
  | .elapse seconds => if 0 ≤ seconds then some { s with now := s.now + seconds } else none
  | .start id =>
      match (s.instances id).phase with
      | .off => some (s.set id (s.instances id).start)
      | _ => none
  | .stop id =>
      match (s.instances id).phase with
      | .off => none
      | _ => some (s.set id (s.instances id).stop)
  | .execute id =>
      match (s.instances id).phase with
      | .calling =>
          some ({ s with key := (s.acquire id).1 }.set id
            { s.instances id with phase := .answered (s.acquire id).2 })
      | _ => none
  | .executeLate id =>
      if 0 < (s.instances id).late then
        some ({ s with key := (s.acquire id).1 }.set id
          { s.instances id with late := (s.instances id).late - 1 })
      else none
  | .deliver id =>
      match (s.instances id).phase with
      | .answered leader =>
          some (s.set id { (s.instances id).applyLeadership leader with
            phase := .sleeping (s.now + leaderRenewSeconds) })
      | _ => none
  | .fail id =>
      match (s.instances id).phase with
      | .calling | .answered _ =>
          some (s.set id { s.instances id with
            phase := .sleeping (s.now + leaderRenewSeconds)
            late := (s.instances id).lateAfterGivingUp })
      | _ => none
  | .wake id =>
      match (s.instances id).phase with
      | .sleeping wakeAt =>
          if wakeAt ≤ s.now then some (s.set id { s.instances id with phase := .calling }) else none
      | _ => none

/-- The transition relation of `Cluster.step`. -/
def Step (s : Cluster) (e : Event) (s' : Cluster) : Prop := s.step e = some s'

/-- **An orderly handover.** A script that finds the key free belongs to the only instance, if any,
that is leading. -/
def HandedOver (s : Cluster) : Event → Prop
  | .execute id | .executeLate id =>
      Lease.holderAt s.key s.now = none → ∀ i, i ≠ id → ¬(s.instances i).Leading
  | _ => True

end Cluster

/-! ### What an event does to one instance -/

/-- The flag and the scheduler agree, until the instance is stopped. -/
def Coordinator.Coherent (c : Coordinator) : Prop :=
  if c.phase = .off then c.resumed = false else c.resumed = c.isLeader

namespace Coordinator

variable {c : Coordinator}

theorem coherent_start : c.start.Coherent := by simp [start, Coherent]

theorem coherent_stop : c.stop.Coherent := by simp [stop, Coherent]

/-- A loop that is under way may go on to any place. -/
theorem Coherent.of_phase (h : c.Coherent) (hphase : c.phase ≠ .off) {phase : Phase} (late : ℕ)
    (hon : phase ≠ .off) : Coherent { c with phase := phase, late := late } := by
  simp only [Coherent, hphase, if_false] at h
  simpa [Coherent, hon] using h

theorem Coherent.applyLeadership (h : c.Coherent) (hphase : c.phase ≠ .off) (leader : Bool)
    {phase : Phase} (hon : phase ≠ .off) :
    Coherent { c.applyLeadership leader with phase := phase } := by
  simp only [Coherent, hphase, if_false] at h
  cases leader <;> cases hleader : c.isLeader <;>
    simp [Coordinator.applyLeadership, Coherent, hon, hleader, h]

/-- An answer makes a leader only of an instance to which the lease was granted. -/
theorem Coherent.leading_of_applyLeadership (h : c.Coherent) {leader : Bool} {wakeAt : ℚ}
    (hphase : c.phase = .answered leader)
    (hlead : Leading { c.applyLeadership leader with phase := .sleeping wakeAt }) : c.Leading := by
  simp only [Coherent, hphase, reduceCtorEq, if_false] at h
  cases leader with
  | true => exact Or.inr hphase
  | false =>
    refine Or.inl ?_
    cases hleader : c.isLeader <;>
      simp_all [Leading, Coordinator.applyLeadership]

end Coordinator

/-! ### Exclusion -/

namespace Cluster

variable {s s' : Cluster}

/-- **What an event does**: time passes; or one instance changes and does not begin to lead; or the
script is executed for an instance, and it may begin to lead if the lease is granted. -/
theorem step_cases {e : Event} (hstep : s.Step e s') :
    (∃ seconds, e = .elapse seconds ∧ 0 ≤ seconds ∧ s' = { s with now := s.now + seconds }) ∨
    (∃ id c, s' = s.set id c ∧ ((s.instances id).Coherent →
      c.Coherent ∧ (c.Leading → (s.instances id).Leading))) ∨
    (∃ id c, (e = .execute id ∨ e = .executeLate id) ∧
      s' = { s with key := (s.acquire id).1 }.set id c ∧ ((s.instances id).Coherent →
        c.Coherent ∧ ((s.acquire id).2 = false → c.Leading → (s.instances id).Leading))) := by
  unfold Step Cluster.step at hstep
  cases e with
  | elapse seconds =>
    obtain ⟨hpos, rfl⟩ := made_of_guard hstep
    exact Or.inl ⟨seconds, rfl, hpos, rfl⟩
  | start id =>
    simp only at hstep
    split at hstep
    · obtain rfl := Option.some.inj hstep
      exact Or.inr (Or.inl ⟨id, _, rfl, fun _ => ⟨Coordinator.coherent_start,
        by simp [Coordinator.start, Coordinator.Leading]⟩⟩)
    · cases hstep
  | stop id =>
    simp only at hstep
    split at hstep
    · cases hstep
    · obtain rfl := Option.some.inj hstep
      exact Or.inr (Or.inl ⟨id, _, rfl, fun _ => ⟨Coordinator.coherent_stop,
        by simp [Coordinator.stop, Coordinator.Leading]⟩⟩)
  | execute id =>
    simp only at hstep
    split at hstep
    · next hphase =>
      obtain rfl := Option.some.inj hstep
      refine Or.inr (Or.inr ⟨id, _, Or.inl rfl, rfl, fun h => ⟨?_, ?_⟩⟩)
      · exact h.of_phase (by simp [hphase]) _ (by simp)
      · intro hrefused hlead
        exact hlead.imp_right (by simp [hrefused])
    · cases hstep
  | executeLate id =>
    obtain ⟨-, rfl⟩ := made_of_guard hstep
    exact Or.inr (Or.inr ⟨id, _, Or.inr rfl, rfl, fun h => ⟨h, fun _ hlead => hlead⟩⟩)
  | deliver id =>
    simp only at hstep
    split at hstep
    · next leader hphase =>
      obtain rfl := Option.some.inj hstep
      refine Or.inr (Or.inl ⟨id, _, rfl, fun h => ⟨?_, h.leading_of_applyLeadership hphase⟩⟩)
      exact h.applyLeadership (by simp [hphase]) leader (by simp)
    · cases hstep
  | fail id =>
    simp only at hstep
    split at hstep
    case h_3 => cases hstep
    all_goals next hphase =>
      obtain rfl := Option.some.inj hstep
      exact Or.inr (Or.inl ⟨id, _, rfl, fun h =>
        ⟨h.of_phase (by simp [hphase]) _ (by simp), fun hlead => hlead.imp_right (by simp)⟩⟩)
  | wake id =>
    simp only at hstep
    split at hstep
    · next hphase =>
      obtain ⟨-, rfl⟩ := made_of_guard hstep
      exact Or.inr (Or.inl ⟨id, _, rfl, fun h =>
        ⟨h.of_phase (by simp [hphase]) _ (by simp), fun hlead => hlead.imp_right (by simp)⟩⟩)
    · cases hstep

/-- At most one instance is leading, and the lease that has not run out is its own. -/
structure Exclusive (s : Cluster) : Prop where
  coherent : ∀ i, (s.instances i).Coherent
  unique : ∀ i j, (s.instances i).Leading → (s.instances j).Leading → i = j
  held : ∀ i j, (s.instances i).Leading → Lease.holderAt s.key s.now = some j → i = j

theorem exclusive_init (now : ℚ) (key : Option (Lease String ℚ)) : (init now key).Exclusive := by
  have hoff (i : String) : ¬((init now key).instances i).Leading := by
    simp [init, Coordinator.Leading]
  exact ⟨fun i => by simp [init, Coordinator.Coherent], fun i j hi => absurd hi (hoff i),
    fun i j hi => absurd hi (hoff i)⟩

theorem instances_set_self (s : Cluster) (id : String) (c : Coordinator) :
    (s.set id c).instances id = c := Function.update_self ..

theorem instances_set_of_ne (s : Cluster) {id i : String} (c : Coordinator) (hi : i ≠ id) :
    (s.set id c).instances i = s.instances i := Function.update_of_ne hi ..

theorem coherent_set {id : String} {c : Coordinator} (h : ∀ i, (s.instances i).Coherent)
    (hc : c.Coherent) (i : String) : ((s.set id c).instances i).Coherent := by
  by_cases hi : i = id
  · rw [hi, instances_set_self]
    exact hc
  · rw [instances_set_of_ne s c hi]
    exact h i

/-- An instance that does not begin to lead. -/
theorem Exclusive.set (h : s.Exclusive) {id : String} {c : Coordinator} (hc : c.Coherent)
    (hlead : c.Leading → (s.instances id).Leading) : (s.set id c).Exclusive := by
  have hback (i : String) (hi : ((s.set id c).instances i).Leading) : (s.instances i).Leading := by
    by_cases hid : i = id
    · rw [hid, instances_set_self] at hi
      exact hid ▸ hlead hi
    · rwa [instances_set_of_ne s c hid] at hi
  exact ⟨coherent_set h.coherent hc, fun i j hi hj => h.unique i j (hback i hi) (hback j hj),
    fun i j hi => h.held i j (hback i hi)⟩

/-- The lease is granted to an instance while no other is leading. -/
theorem Exclusive.grant (h : s.Exclusive) {id : String} {c : Coordinator} {expiry : ℚ}
    (hc : c.Coherent) (hothers : ∀ i, i ≠ id → ¬(s.instances i).Leading) :
    ({ s with key := some ⟨id, expiry⟩ }.set id c).Exclusive := by
  have hself (i : String)
      (hi : (({ s with key := some ⟨id, expiry⟩ }.set id c).instances i).Leading) : i = id := by
    by_contra hne
    rw [instances_set_of_ne _ c hne] at hi
    exact hothers i hne hi
  refine ⟨coherent_set h.coherent hc, fun i j hi hj => (hself i hi).trans (hself j hj).symm, ?_⟩
  intro i j hi hheld
  obtain ⟨l, hl, -, rfl⟩ := Lease.holderAt_eq_some.mp hheld
  obtain rfl := Option.some.inj hl
  exact hself i hi

/-- The script is executed for an instance; if it is refused, the instance does not begin to
lead. -/
theorem Exclusive.acquire (h : s.Exclusive) {id : String} {c : Coordinator} (hc : c.Coherent)
    (hlead : (s.acquire id).2 = false → c.Leading → (s.instances id).Leading)
    (hfree : Lease.holderAt s.key s.now = none → ∀ i, i ≠ id → ¬(s.instances i).Leading) :
    ({ s with key := (s.acquire id).1 }.set id c).Exclusive := by
  rcases Lease.acquire_cases s.key id s.now (s.now + leaderTtlSeconds) with
    ⟨heq, hgranted⟩ | ⟨heq, -⟩
  · change s.acquire id = _ at heq
    rw [heq]
    refine h.grant hc fun i hi hleading => ?_
    rcases hgranted with hnone | hown
    · exact hfree hnone i hi hleading
    · exact hi (h.held i id hleading hown)
  · change s.acquire id = _ at heq
    rw [heq]
    exact h.set hc (hlead (by rw [heq]))

/-- **One event.** -/
theorem Exclusive.step {e : Event} (h : s.Exclusive) (hover : s.HandedOver e)
    (hstep : s.Step e s') : s'.Exclusive := by
  rcases step_cases hstep with ⟨seconds, -, hpos, rfl⟩ | ⟨id, c, rfl, hc⟩ | ⟨id, c, he, rfl, hc⟩
  · refine ⟨h.coherent, h.unique, fun i j hi hheld => h.held i j hi ?_⟩
    exact Lease.holderAt_anti (le_add_of_nonneg_right hpos) hheld
  · exact h.set (hc (h.coherent id)).1 (hc (h.coherent id)).2
  · refine h.acquire (hc (h.coherent id)).1 (hc (h.coherent id)).2 ?_
    rcases he with rfl | rfl
    · exact hover
    · exact hover

/-- **At most one leader** in every state that a run with orderly handovers reaches: of two
instances whose schedulers run jobs, each is the other. The flag says whether the scheduler of an
instance that is not stopped runs jobs. -/
theorem leaders_unique {now : ℚ} {key : Option (Lease String ℚ)} {l : List Event}
    (hrun : Run (Guarded HandedOver Step) (init now key) l s) :
    (∀ i j, (s.instances i).resumed = true → (s.instances j).resumed = true → i = j) ∧
      ∀ i, (s.instances i).phase ≠ .off → (s.instances i).resumed = (s.instances i).isLeader := by
  have h : s.Exclusive :=
    hrun.invariant (fun _ _ _ h hstep => h.step hstep.1 hstep.2) (exclusive_init now key)
  refine ⟨fun i j hi hj => h.unique i j (Or.inl hi) (Or.inl hj), fun i hi => ?_⟩
  have hcoherent := h.coherent i
  rwa [Coordinator.Coherent, if_neg hi] at hcoherent

/-! ### The condition is needed -/

theorem resumed_applyLeadership_true {c : Coordinator} (h : c.Coherent) (hon : c.phase ≠ .off) :
    (c.applyLeadership true).resumed = true := by
  simp only [Coordinator.Coherent, hon, if_false] at h
  cases hleader : c.isLeader <;> simp [Coordinator.applyLeadership, hleader, h]

/-- The answer of an instance to which the lease was granted makes it a leader. -/
theorem exists_deliver {i : String} (h : (s.instances i).Coherent)
    (hphase : (s.instances i).phase = .answered true) :
    ∃ c, s.Step (.deliver i) (s.set i c) ∧ c.resumed = true := by
  refine ⟨_, by simp only [Step, step, hphase]; rfl, ?_⟩
  exact resumed_applyLeadership_true h (by simp [hphase])

/-- If the call of an instance finds the lease run out while another instance is leading, both are
leaders as soon as their answers have arrived. -/
theorem exists_two_leaders_of_execute {id i : String} (h : ∀ j, (s.instances j).Coherent)
    (hstep : s.Step (.execute id) s') (hnone : Lease.holderAt s.key s.now = none) (hi : i ≠ id)
    (hlead : (s.instances i).Leading) :
    ∃ l u, Run Step s' l u ∧ (u.instances i).resumed = true ∧ (u.instances id).resumed = true := by
  have hcoherent : ∀ j, (s'.instances j).Coherent := by
    rcases step_cases hstep with ⟨_, he, -, -⟩ | ⟨j, c, rfl, hc⟩ | ⟨j, c, -, rfl, hc⟩
    · cases he
    · exact coherent_set h (hc (h j)).1
    · exact coherent_set h (hc (h j)).1
  have hgranted : (s.acquire id).2 = true := by
    simp [acquire, acquireLua, Lease.acquire, hnone]
  have hid : (s'.instances id).phase = .answered true ∧ s'.instances i = s.instances i := by
    simp only [Step, step] at hstep
    split at hstep
    · obtain rfl := Option.some.inj hstep
      exact ⟨by rw [instances_set_self, hgranted], instances_set_of_ne _ _ hi⟩
    · cases hstep
  obtain ⟨c, hdeliver, hc⟩ := exists_deliver (hcoherent id) hid.1
  rcases hlead with hresumed | hanswered
  · refine ⟨_, _, .single hdeliver, ?_, ?_⟩
    · rw [instances_set_of_ne _ _ hi, hid.2]
      exact hresumed
    · rw [instances_set_self]
      exact hc
  · have hi' : (s'.set id c).instances i = s.instances i := by
      rw [instances_set_of_ne _ _ hi, hid.2]
    obtain ⟨c', hdeliver', hc'⟩ := exists_deliver (hi' ▸ h i) (hi' ▸ hanswered)
    refine ⟨_, _, .cons hdeliver (.single hdeliver'), ?_, ?_⟩
    · rw [instances_set_self]
      exact hc'
    · rw [instances_set_of_ne _ _ hi.symm, instances_set_self]
      exact hc

/-! ### Samples -/

/-- The first instance becomes the leader, and a second one is started. -/
theorem leaders_unique_after_start :
    ∃ s, Run (Guarded HandedOver Step) (init 0 none)
        [.start "a", .execute "a", .deliver "a", .start "b", .fail "b"] s ∧
      (s.instances "a").resumed = true ∧
      ∀ i j, (s.instances i).resumed = true → (s.instances j).resumed = true → i = j := by
  have hrun : ∃ s, Run (Guarded HandedOver Step) (init 0 none)
      [.start "a", .execute "a", .deliver "a", .start "b", .fail "b"] s ∧
        (s.instances "a").resumed = true := by
    refine ⟨_, .cons ⟨trivial, rfl⟩ (.cons ⟨?_, rfl⟩ (.cons ⟨trivial, rfl⟩
      (.cons ⟨trivial, rfl⟩ (.single ⟨trivial, rfl⟩)))), rfl⟩
    intro _ i hi
    rw [instances_set_of_ne _ _ hi]
    simp [init, Coordinator.Leading]
  obtain ⟨s, hrun, ha⟩ := hrun
  exact ⟨s, hrun, ha, (leaders_unique hrun).1⟩

/-- The leader is cut off from Redis when it should renew its lease; the lease runs out, and another
instance acquires it. -/
def sampleCutoff : List Event :=
  [.start "a", .execute "a", .deliver "a", .elapse 10, .wake "a", .fail "a", .elapse 21,
    .start "b", .execute "b", .deliver "b"]

def sampleView (s : Cluster) : Bool × Bool :=
  ((s.instances "a").resumed, (s.instances "b").resumed)

/-- Both run their jobs. -/
theorem two_leaders_after_cutoff :
    ¬∀ (now : ℚ) (key : Option (Lease String ℚ)) (l : List Event) (s : Cluster),
      Run Step (init now key) l s →
        ∀ i j, (s.instances i).resumed = true → (s.instances j).resumed = true → i = j := by
  intro hall
  have hview : (sampleCutoff.foldlM step (init 0 none)).map sampleView = some (true, true) := by
    decide +kernel
  obtain ⟨s, hs, hresumed⟩ := Option.map_eq_some_iff.mp hview
  obtain ⟨ha, hb⟩ := Prod.mk.inj hresumed
  exact absurd (hall 0 none _ s (Run.of_foldlM hs) "a" "b" ha hb) (by decide)

end Cluster

end Nodeglow.Ha
