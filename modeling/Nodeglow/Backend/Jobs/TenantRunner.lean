import Mathlib.Data.List.Rotate
import Nodeglow.Foundation.Run

/-!
# Iterations of tenant jobs

A scheduled job runs once per active tenant on every tick. With several tenants each iteration is a
task of its own (`runForTenants`), one after another or several at a time behind a gate. A task that
is not done within the budget of its tick is left in the background and entered in `inflight`, and
later ticks skip its tenant until it is done. With exactly one active tenant the iteration is the
plain call (`runSingle`): no task, no budget, and no look at `inflight`.

The scheduler starts no tick of a job while another is running. Iterations start, end and outlive
their budgets at any time, and every tick finds any list of active tenants (`State.step`).

A live task is entered in `inflight` or awaited by the running tick of its job (`Covered`), so a
task is only made for a tenant without one. The plain call of a single tenant is safe if its tick
finds no live task of that tenant in `inflight` (`SkipsInflight`): then no two iterations of a job
ever run for one tenant at the same time (`running_unique`). A tick that does not meet the condition
starts a second iteration (`overlap_after_shrinking`).

## Main results

* `Covered.step` — one event.

Source: `backend/services/tenant_jobs.py`, lines 185–311 and 522–600; `backend/scheduler.py`,
line 37.
-/

namespace Nodeglow.TenantRunner

inductive Phase
  /-- The task waits for its first turn, or for the gate. -/
  | created
  /-- The iteration runs. -/
  | running
  | done
  deriving DecidableEq, Repr

/-- The iteration of a job for a tenant. -/
structure Task (Job Tenant : Type) where
  job : Job
  tenant : Tenant
  /-- The tick that made the task, which names its gate. -/
  tick : ℕ
  /-- The slots of the gate. -/
  gate : Option ℕ
  phase : Phase
  deriving DecidableEq, Repr

/-- What the running tick of a job waits for. -/
inductive Pass (Tenant : Type)
  /-- No tick is running. -/
  | idle
  /-- `run_single` awaits the iteration. -/
  | single (id : ℕ)
  /-- A sequential run waits for one task, with tenants still to come. -/
  | sequential (id : ℕ) (rest : List Tenant)
  /-- A parallel run waits for its tasks. -/
  | parallel (started : List ℕ)
  deriving DecidableEq, Repr

structure State (Job Tenant : Type) where
  /-- The number of tasks so far. -/
  tasks : ℕ
  task : ℕ → Option (Task Job Tenant)
  /-- The task of an iteration that outlived its budget. -/
  inflight : Job × Tenant → Option ℕ
  rotation : Job → ℕ
  pass : Job → Pass Tenant
  /-- The number of ticks so far. -/
  ticks : ℕ

/-- What can happen. -/
inductive Event (Job Tenant : Type)
  /-- A tick of the job finds the active tenants, of which some are due. -/
  | tick (job : Job) (tenants due : List Tenant) (parallel : ℕ)
  /-- The iteration of a task starts. -/
  | start (id : ℕ)
  /-- The iteration of a task ends, with or without an error. -/
  | finish (id : ℕ)
  /-- The tick has waited for the budget. -/
  | timeout (job : Job)
  /-- Everything the tick waits for is done. -/
  | proceed (job : Job)
  /-- The callback of a task in the background that is done. -/
  | callback (id : ℕ)
  deriving DecidableEq, Repr

namespace State

variable {Job Tenant : Type}

def init (Job Tenant : Type) : State Job Tenant where
  tasks := 0
  task _ := none
  inflight _ := none
  rotation _ := 0
  pass _ := .idle
  ticks := 0

variable (s : State Job Tenant)

/-- The task is done. -/
def isDone (id : ℕ) : Bool := (s.task id).all fun t => t.phase = .done

/-- The iterations of a tick that hold a slot of its gate. -/
def atGate (tick : ℕ) : ℕ :=
  (List.range s.tasks).countP fun id =>
    (s.task id).any fun t => t.tick = tick ∧ t.phase = .running

def setPhase (id : ℕ) (p : Phase) : State Job Tenant :=
  { s with task := Function.update s.task id ((s.task id).map fun t => { t with phase := p }) }

/-- The task is not done; `key` is its job and its tenant. -/
def Live (id : ℕ) (key : Job × Tenant) : Prop :=
  ∃ t, s.task id = some t ∧ t.phase ≠ .done ∧ (t.job, t.tenant) = key

/-- The iteration of the task runs. -/
def Running (id : ℕ) (key : Job × Tenant) : Prop :=
  ∃ t, s.task id = some t ∧ t.phase = .running ∧ (t.job, t.tenant) = key

/-- Make a task; its number is that of the tasks so far. -/
def createTask (job : Job) (tenant : Tenant) (gate : Option ℕ) (p : Phase) : State Job Tenant :=
  { s with
    tasks := s.tasks + 1
    task := Function.update s.task s.tasks (some ⟨job, tenant, s.ticks, gate, p⟩) }

variable [DecidableEq Job] [DecidableEq Tenant]

def setPass (job : Job) (p : Pass Tenant) : State Job Tenant :=
  { s with pass := Function.update s.pass job p }

def setInflight (key : Job × Tenant) (id : Option ℕ) : State Job Tenant :=
  { s with inflight := Function.update s.inflight key id }

/-- `_is_inflight`: an entry whose task is done is removed. -/
def isInflight (job : Job) (tenant : Tenant) : State Job Tenant × Bool :=
  match s.inflight (job, tenant) with
  | none => (s, false)
  | some id => if s.isDone id then (s.setInflight (job, tenant) none, false) else (s, true)

/-- `_leave_in_background`. -/
def leaveInBackground (id : ℕ) : State Job Tenant :=
  match s.task id with
  | none => s
  | some t => s.setInflight (t.job, t.tenant) (some id)

/-- The loop of a sequential run, up to the next task it waits for. -/
def sequentialLoop (job : Job) : List Tenant → State Job Tenant → State Job Tenant
  | [], s => s.setPass job .idle
  | tid :: rest, s =>
      let r := s.isInflight job tid
      if r.2 then sequentialLoop job rest r.1
      else (r.1.createTask job tid none .created).setPass job (.sequential r.1.tasks rest)

/-- The loop of a parallel run: it makes all tasks before it waits. -/
def parallelLoop (job : Job) (gate : ℕ) :
    List Tenant → List ℕ → State Job Tenant → State Job Tenant × List ℕ
  | [], started, s => (s, started)
  | tid :: rest, started, s =>
      let r := s.isInflight job tid
      if r.2 then parallelLoop job gate rest started r.1
      else
        parallelLoop job gate rest (started ++ [r.1.tasks])
          (r.1.createTask job tid (some gate) .created)

/-- `rotated`: each run starts one tenant later. -/
def rotated (job : Job) (tenants : List Tenant) : State Job Tenant × List Tenant :=
  if tenants.length < 2 then (s, tenants)
  else
    let offset := s.rotation job % tenants.length
    ({ s with rotation := Function.update s.rotation job (offset + 1) },
      tenants.drop offset ++ tenants.take offset)

/-- `run_for_tenants`, up to where it waits. -/
def runForTenants (job : Job) (tenants : List Tenant) (parallel : ℕ) : State Job Tenant :=
  let r := s.rotated job tenants
  if parallel ≤ 1 then sequentialLoop job r.2 r.1
  else
    let p := parallelLoop job parallel r.2 [] r.1
    p.1.setPass job (if p.2 = [] then .idle else .parallel p.2)

/-- `run_single`: the plain call, in the tick itself. -/
def runSingle (job : Job) (tenant : Tenant) : State Job Tenant :=
  (s.createTask job tenant none .running).setPass job (.single s.tasks)

/-- One event; it has no value where the event cannot happen. -/
def step : Event Job Tenant → Option (State Job Tenant)
  | .tick job tenants due parallel =>
      -- one tick of a job at a time; the active tenants are rows of a table
      if s.pass job = .idle ∧ tenants.Nodup ∧ due.Sublist tenants then
        let s := { s with ticks := s.ticks + 1 }
        match tenants with
        | [tid] => some (s.runSingle job tid)
        | _ => some (s.runForTenants job due parallel)
      else none
  | .start id =>
      match s.task id with
      | some t =>
          if t.phase = .created ∧ t.gate.all (s.atGate t.tick < ·) then some (s.setPhase id .running)
          else none
      | none => none
  | .finish id =>
      if (s.task id).any fun t => t.phase = .running then some (s.setPhase id .done) else none
  | .timeout job =>
      match s.pass job with
      | .sequential id rest =>
          if s.isDone id then none else some ((s.leaveInBackground id).sequentialLoop job rest)
      | .parallel started =>
          let pending := started.filter fun id => !s.isDone id
          some ((pending.foldl (fun s id => s.leaveInBackground id) s).setPass job .idle)
      | _ => none
  | .proceed job =>
      match s.pass job with
      | .single id => if s.isDone id then some (s.setPass job .idle) else none
      | .sequential id rest => if s.isDone id then some (s.sequentialLoop job rest) else none
      | .parallel started => if started.all s.isDone then some (s.setPass job .idle) else none
      | .idle => none
  | .callback id =>
      match s.task id with
      | some t =>
          if t.phase = .done then
            some (if s.inflight (t.job, t.tenant) = some id then
              s.setInflight (t.job, t.tenant) none else s)
          else none
      | none => none

end State

/-- The tick waits for the task. -/
def Pass.Awaits {Tenant : Type} (p : Pass Tenant) (id : ℕ) : Prop :=
  match p with
  | .idle => False
  | .single i | .sequential i _ => id = i
  | .parallel started => id ∈ started

variable {Job Tenant : Type}

/-! ### Where the live tasks are -/

/-- Every live task is in flight or awaited, and no job has two live tasks for one tenant. -/
structure Covered (s : State Job Tenant) (awaited : Job → ℕ → Prop) : Prop where
  fresh : ∀ id, s.tasks ≤ id → s.task id = none
  covered : ∀ id key, s.Live id key → s.inflight key = some id ∨ awaited key.1 id
  unique : ∀ id id' key, s.Live id key → s.Live id' key → id = id'

/-- The tasks that the running ticks await. -/
def awaitedBy (s : State Job Tenant) (job : Job) (id : ℕ) : Prop := (s.pass job).Awaits id

/-- The tasks that the ticks of the other jobs await. -/
def awaitedByOthers (s : State Job Tenant) (job : Job) (job' : Job) (id : ℕ) : Prop :=
  job' ≠ job ∧ (s.pass job').Awaits id

section Covered

variable {s s' : State Job Tenant} {A A' : Job → ℕ → Prop} {job : Job} {tid : Tenant} {id : ℕ}
  {key : Job × Tenant}

theorem covered_init : Covered (State.init Job Tenant) (awaitedBy (State.init Job Tenant)) where
  fresh _ _ := rfl
  covered id key h := by simp [State.Live, State.init] at h
  unique id id' key h := by simp [State.Live, State.init] at h

theorem State.Live.isDone_eq_false (h : s.Live id key) : s.isDone id = false := by
  obtain ⟨t, ht, hphase, -⟩ := h
  simp [State.isDone, ht, hphase]

theorem Covered.mono (h : Covered s A) (hA : ∀ job id, A job id → A' job id) : Covered s A' :=
  { h with covered := fun id key hl => (h.covered id key hl).imp_right (hA key.1 id) }

/-- A task that is done need not be awaited. -/
theorem Covered.of_isDone (h : Covered s A)
    (hA : ∀ job id, A job id → s.isDone id = false → A' job id) : Covered s A' where
  fresh := h.fresh
  covered id key hl :=
    (h.covered id key hl).imp_right fun haw => hA key.1 id haw hl.isDone_eq_false
  unique := h.unique

/-- Fewer live tasks. -/
theorem Covered.of_live (h : Covered s A) (hfresh : ∀ id, s'.tasks ≤ id → s'.task id = none)
    (hlive : ∀ id key, s'.Live id key → s.Live id key) (hinflight : s'.inflight = s.inflight) :
    Covered s' A where
  fresh := hfresh
  covered id key hl := hinflight ▸ h.covered id key (hlive id key hl)
  unique id id' key hl hl' := h.unique id id' key (hlive id key hl) (hlive id' key hl')

theorem State.live_createTask {gate : Option ℕ} {p : Phase}
    (h : (s.createTask job tid gate p).Live id key) :
    (id = s.tasks ∧ key = (job, tid)) ∨ (id ≠ s.tasks ∧ s.Live id key) := by
  obtain ⟨t, ht, hphase, hkey⟩ := h
  by_cases hid : id = s.tasks
  · subst hid
    obtain rfl : _ = t := by simpa [State.createTask] using ht
    exact Or.inl ⟨rfl, hkey.symm⟩
  · exact Or.inr ⟨hid, t, by simpa [State.createTask, hid] using ht, hphase, hkey⟩

/-- A new task for a tenant without one. -/
theorem Covered.createTask (h : Covered s A) (hnone : ∀ id, ¬s.Live id (job, tid))
    (gate : Option ℕ) (p : Phase) :
    Covered (s.createTask job tid gate p)
      fun job' id => A job' id ∨ (job' = job ∧ id = s.tasks) where
  fresh id hid := by
    have hne : id ≠ s.tasks := (Nat.lt_of_succ_le hid).ne'
    simpa [State.createTask, hne] using h.fresh id (Nat.le_of_succ_le hid)
  covered id key hl := by
    rcases State.live_createTask hl with ⟨rfl, rfl⟩ | ⟨-, hl⟩
    · exact Or.inr (Or.inr ⟨rfl, rfl⟩)
    · exact (h.covered id key hl).imp_right Or.inl
  unique id id' key hl hl' := by
    rcases State.live_createTask hl with ⟨rfl, rfl⟩ | ⟨-, hl⟩ <;>
      rcases State.live_createTask hl' with ⟨rfl, hkey⟩ | ⟨-, hl'⟩
    · rfl
    · exact absurd hl' (hnone id')
    · exact absurd (hkey ▸ hl) (hnone id)
    · exact h.unique id id' key hl hl'

/-- When everything a tick awaits is done, it is as if only the other ticks awaited tasks. -/
theorem Covered.of_awaited_isDone (h : Covered s (awaitedBy s))
    (hdone : ∀ id, (s.pass job).Awaits id → s.isDone id = true) :
    Covered s (awaitedByOthers s job) := by
  refine h.of_isDone fun job' id haw hnot => ⟨?_, haw⟩
  rintro rfl
  simp [hdone id haw] at hnot

theorem State.live_of_live_setPhase {id' : ℕ} {p : Phase}
    (hnot : s.isDone id = false) (h : (s.setPhase id p).Live id' key) : s.Live id' key := by
  obtain ⟨t, ht, hphase, hkey⟩ := h
  by_cases hid : id' = id
  · subst hid
    obtain ⟨t', ht', rfl⟩ : ∃ t', s.task id' = some t' ∧ { t' with phase := p } = t := by
      simpa [State.setPhase] using ht
    exact ⟨t', ht', by simpa [State.isDone, ht'] using hnot, hkey⟩
  · exact ⟨t, by simpa [State.setPhase, hid] using ht, hphase, hkey⟩

/-- A task starts or ends. -/
theorem Covered.setPhase (h : Covered s (awaitedBy s)) (hnot : s.isDone id = false)
    (p : Phase) : Covered (s.setPhase id p) (awaitedBy (s.setPhase id p)) := by
  refine h.of_live (fun id' hid' => ?_) (fun _ _ => State.live_of_live_setPhase hnot) rfl
  have hnone : s.task id' = none := h.fresh id' hid'
  by_cases hid : id' = id
  · simp [State.setPhase, ← hid, hnone]
  · simp [State.setPhase, hid, hnone]

variable [DecidableEq Job] [DecidableEq Tenant]

/-- Removing the entry of a task that is done. -/
theorem Covered.setInflight_none (h : Covered s A) (hid : s.inflight key = some id)
    (hdone : s.isDone id = true) : Covered (s.setInflight key none) A where
  fresh := h.fresh
  covered id' key' hl := by
    rcases h.covered id' key' hl with hin | haw
    · have hne : key' ≠ key := by
        rintro rfl
        obtain rfl : id = id' := Option.some.inj (hid.symm.trans hin)
        have hl' : s.Live id key' := hl
        simp [hl'.isDone_eq_false] at hdone
      exact Or.inl (by simpa [State.setInflight, hne] using hin)
    · exact Or.inr haw
  unique := h.unique

theorem Covered.isInflight (h : Covered s A) (job : Job) (tid : Tenant) :
    Covered (s.isInflight job tid).1 A := by
  unfold State.isInflight
  split
  · exact h
  · next id hid =>
    split_ifs with hdone
    · exact h.setInflight_none hid hdone
    · exact h

theorem State.isInflight_frame (s : State Job Tenant) (job : Job) (tid : Tenant) :
    (s.isInflight job tid).1.task = s.task ∧ (s.isInflight job tid).1.pass = s.pass := by
  unfold State.isInflight
  split
  · exact ⟨rfl, rfl⟩
  · split_ifs <;> exact ⟨rfl, rfl⟩

/-- A tenant that is not in flight has no live task but one that the tick awaits. -/
theorem Covered.awaited_of_isInflight (h : Covered s A) (hnot : (s.isInflight job tid).2 = false)
    (hl : s.Live id (job, tid)) : A job id := by
  refine (h.covered id _ hl).resolve_left fun hin => ?_
  simp [State.isInflight, hin, hl.isDone_eq_false] at hnot

/-- A task that is not done may be left in the background. -/
theorem Covered.leaveInBackground (h : Covered s A) (hdone : s.isDone id = false) :
    Covered (s.leaveInBackground id) fun job' id' => A job' id' ∧ id' ≠ id := by
  cases ht : s.task id with
  | none => simp [State.isDone, ht] at hdone
  | some t =>
    have hlive : s.Live id (t.job, t.tenant) := ⟨t, ht, by simpa [State.isDone, ht] using hdone, rfl⟩
    have hleave : s.leaveInBackground id = s.setInflight (t.job, t.tenant) (some id) := by
      simp [State.leaveInBackground, ht]
    rw [hleave]
    refine ⟨h.fresh, fun id' key hl => ?_, h.unique⟩
    by_cases hkey : key = (t.job, t.tenant)
    · subst hkey
      obtain rfl := h.unique id id' _ hlive hl
      exact Or.inl (by simp [State.setInflight])
    · refine (h.covered id' key hl).imp (fun hin => ?_) fun haw => ⟨haw, ?_⟩
      · simpa [State.setInflight, hkey] using hin
      · rintro rfl
        obtain ⟨t', ht', -, hkey'⟩ := hl
        obtain rfl : t = t' := Option.some.inj (ht.symm.trans ht')
        exact hkey hkey'.symm

theorem State.leaveInBackground_frame (s : State Job Tenant) (id : ℕ) :
    (s.leaveInBackground id).task = s.task ∧ (s.leaveInBackground id).pass = s.pass := by
  unfold State.leaveInBackground
  split <;> exact ⟨rfl, rfl⟩

/-! ### Loops -/

omit [DecidableEq Job] [DecidableEq Tenant] in
theorem awaitedByOthers_congr (h : s'.pass = s.pass) :
    awaitedByOthers s' job = awaitedByOthers s job := by
  funext job' id
  rw [awaitedByOthers, h, awaitedByOthers]

omit [DecidableEq Tenant] in
/-- The tick of a job comes to await what it is responsible for. -/
theorem Covered.setPass (h : Covered s A) (p : Pass Tenant)
    (hA : ∀ job' id, A job' id → awaitedByOthers s job job' id ∨ (job' = job ∧ p.Awaits id)) :
    Covered (s.setPass job p) (awaitedBy (s.setPass job p)) := by
  have hset : Covered (s.setPass job p) A := ⟨h.fresh, h.covered, h.unique⟩
  refine hset.mono fun job' id haw => ?_
  rcases hA job' id haw with ⟨hne, haw⟩ | ⟨rfl, haw⟩
  · simpa [awaitedBy, State.setPass, hne] using haw
  · simpa [awaitedBy, State.setPass] using haw

/-- **The sequential loop** makes a task only for a tenant without one, and ends with every live
task in flight or awaited. -/
theorem Covered.sequentialLoop {l : List Tenant} (h : Covered s (awaitedByOthers s job)) :
    Covered (State.sequentialLoop job l s) (awaitedBy (State.sequentialLoop job l s)) := by
  induction l generalizing s with
  | nil => exact h.setPass .idle fun _ _ => Or.inl
  | cons tid rest ih =>
    obtain ⟨htask, hpass⟩ := s.isInflight_frame job tid
    have hothers : awaitedByOthers (s.isInflight job tid).1 job = awaitedByOthers s job :=
      awaitedByOthers_congr hpass
    have hin : Covered (s.isInflight job tid).1 (awaitedByOthers s job) := h.isInflight job tid
    rw [State.sequentialLoop]
    split_ifs with hskip
    · exact ih (hothers ▸ hin)
    · have hnone (id : ℕ) : ¬(s.isInflight job tid).1.Live id (job, tid) := by
        intro hl
        have hl' : s.Live id (job, tid) := by rwa [State.Live, htask] at hl
        exact (h.awaited_of_isInflight (by simpa using hskip) hl').1 rfl
      refine (hin.createTask hnone none .created).setPass _ fun job' id haw => ?_
      refine haw.imp (fun hother => ?_) fun hnew => ?_
      · rw [← hothers] at hother
        exact hother
      · exact hnew

/-- **The parallel loop** makes at most one task for each of its tenants. -/
theorem Covered.parallelLoop {l : List Tenant} {started : List ℕ} (gate : ℕ) (hl : l.Nodup)
    (hstarted : ∀ id ∈ started, ∀ tid, s.Live id (job, tid) → tid ∉ l)
    (h : Covered s fun job' id => awaitedByOthers s job job' id ∨ (job' = job ∧ id ∈ started)) :
    Covered (State.parallelLoop job gate l started s).1 (fun job' id =>
      awaitedByOthers s job job' id ∨
        (job' = job ∧ id ∈ (State.parallelLoop job gate l started s).2)) ∧
      (State.parallelLoop job gate l started s).1.pass = s.pass := by
  induction l generalizing s started with
  | nil => exact ⟨h, rfl⟩
  | cons tid rest ih =>
    obtain ⟨htask, hpass⟩ := s.isInflight_frame job tid
    have hothers : awaitedByOthers (s.isInflight job tid).1 job = awaitedByOthers s job :=
      awaitedByOthers_congr hpass
    have hin := h.isInflight job tid
    have hlive {id : ℕ} {key : Job × Tenant} (hl : (s.isInflight job tid).1.Live id key) :
        s.Live id key := by rwa [State.Live, htask] at hl
    rw [List.nodup_cons] at hl
    rw [State.parallelLoop]
    split_ifs with hskip
    · have hrest := ih hl.2
        (fun id hid t ht => fun hmem => hstarted id hid t (hlive ht) (List.mem_cons_of_mem tid hmem))
        (by simpa only [hothers] using hin)
      exact ⟨by simpa only [hothers] using hrest.1, hrest.2.trans hpass⟩
    · have hnone (id : ℕ) : ¬(s.isInflight job tid).1.Live id (job, tid) := by
        intro hid
        rcases h.awaited_of_isInflight (by simpa using hskip) (hlive hid) with hother | ⟨-, hmem⟩
        · exact hother.1 rfl
        · exact hstarted id hmem tid (hlive hid) List.mem_cons_self
      have hnew := hin.createTask hnone (some gate) .created
      have hothers' : awaitedByOthers
          ((s.isInflight job tid).1.createTask job tid (some gate) .created) job =
            awaitedByOthers s job := awaitedByOthers_congr hpass
      have hcovered : Covered ((s.isInflight job tid).1.createTask job tid (some gate) .created)
          fun job' id => awaitedByOthers s job job' id ∨
            (job' = job ∧ id ∈ started ++ [(s.isInflight job tid).1.tasks]) := by
        refine hnew.mono fun job' id haw => ?_
        rcases haw with (hother | ⟨rfl, hmem⟩) | ⟨rfl, rfl⟩
        · exact Or.inl hother
        · exact Or.inr ⟨rfl, List.mem_append_left _ hmem⟩
        · exact Or.inr ⟨rfl, List.mem_append_right _ (List.mem_singleton_self _)⟩
      have hstarted' : ∀ id ∈ started ++ [(s.isInflight job tid).1.tasks], ∀ t,
          ((s.isInflight job tid).1.createTask job tid (some gate) .created).Live id (job, t) →
            t ∉ rest := by
        intro id hid t ht hmem
        rcases State.live_createTask ht with ⟨-, hkey⟩ | ⟨hne, ht⟩
        · exact hl.1 ((Prod.mk.inj hkey).2 ▸ hmem)
        · have hid : id ∈ started := by simpa [hne] using hid
          exact hstarted id hid t (hlive ht) (List.mem_cons_of_mem tid hmem)
      have hrest := ih hl.2 hstarted' (by simpa only [hothers'] using hcovered)
      exact ⟨by simpa only [hothers'] using hrest.1, hrest.2.trans hpass⟩

/-- The tasks that a parallel run did not see done are left in the background. -/
theorem Covered.foldl_leaveInBackground {l : List ℕ} (hl : ∀ id ∈ l, s.isDone id = false)
    (h : Covered s A) :
    Covered (l.foldl (fun s id => s.leaveInBackground id) s)
      (fun job' id => A job' id ∧ id ∉ l) ∧
        (l.foldl (fun s id => s.leaveInBackground id) s).pass = s.pass := by
  induction l generalizing s A with
  | nil => exact ⟨h.mono fun _ _ haw => ⟨haw, List.not_mem_nil⟩, rfl⟩
  | cons id l ih =>
    obtain ⟨htask, hpass⟩ := s.leaveInBackground_frame id
    have hleave := h.leaveInBackground (hl id List.mem_cons_self)
    have hrest := ih (s := s.leaveInBackground id)
      (fun id' hid' => by
        rw [State.isDone, htask]
        exact hl id' (List.mem_cons_of_mem id hid')) hleave
    refine ⟨hrest.1.mono fun job' id' haw => ?_, hrest.2.trans hpass⟩
    exact ⟨haw.1.1, List.not_mem_cons_of_ne_of_not_mem haw.1.2 haw.2⟩

omit [DecidableEq Tenant] in
theorem State.nodup_rotated (s : State Job Tenant) (job : Job) {l : List Tenant} (hl : l.Nodup) :
    (s.rotated job l).2.Nodup := by
  unfold State.rotated
  split_ifs
  · exact hl
  · exact (List.perm_append_comm.trans (List.Perm.of_eq (List.take_append_drop ..))).nodup_iff.mpr hl

omit [DecidableEq Tenant] in
theorem Covered.rotated (h : Covered s (awaitedByOthers s job)) (l : List Tenant) :
    Covered (s.rotated job l).1 (awaitedByOthers (s.rotated job l).1 job) := by
  unfold State.rotated
  split_ifs <;> exact ⟨h.fresh, h.covered, h.unique⟩

/-- **`run_for_tenants`**, up to where it waits. -/
theorem Covered.runForTenants {l : List Tenant} (hl : l.Nodup)
    (h : Covered s (awaitedByOthers s job)) (parallel : ℕ) :
    Covered (s.runForTenants job l parallel) (awaitedBy (s.runForTenants job l parallel)) := by
  have hrot := h.rotated l
  by_cases hseq : parallel ≤ 1
  · simpa only [State.runForTenants, hseq, if_true] using hrot.sequentialLoop
  · have hnone : ∀ id ∈ ([] : List ℕ), ∀ tid, (s.rotated job l).1.Live id (job, tid) →
        tid ∉ (s.rotated job l).2 := fun _ hid => absurd hid List.not_mem_nil
    obtain ⟨hloop, hpass⟩ := Covered.parallelLoop parallel (s.nodup_rotated job hl) hnone
      (hrot.mono fun _ _ => Or.inl)
    simp only [State.runForTenants, hseq, if_false]
    refine hloop.setPass _ fun job' id haw => ?_
    rw [awaitedByOthers_congr hpass]
    refine haw.imp_right fun hnew => ⟨hnew.1, ?_⟩
    rw [if_neg (List.ne_nil_of_mem hnew.2)]
    exact hnew.2

omit [DecidableEq Tenant] in
/-- **`run_single`** for a tenant without a live task. -/
theorem Covered.runSingle (h : Covered s (awaitedByOthers s job))
    (hnone : ∀ id, ¬s.Live id (job, tid)) :
    Covered (s.runSingle job tid) (awaitedBy (s.runSingle job tid)) :=
  (h.createTask hnone none .running).setPass _ fun _ _ haw => haw

end Covered

variable [DecidableEq Job] [DecidableEq Tenant]

/-- The transition relation of `State.step`. -/
def Step (s : State Job Tenant) (e : Event Job Tenant) (s' : State Job Tenant) : Prop :=
  s.step e = some s'

/-- A tick that finds exactly one active tenant finds no iteration of it in flight. -/
def SkipsInflight (s : State Job Tenant) : Event Job Tenant → Prop
  | .tick job [tid] _ _ => (s.isInflight job tid).2 = false
  | _ => True

instance (s : State Job Tenant) : (e : Event Job Tenant) → Decidable (SkipsInflight s e)
  | .tick job [tid] _ _ => inferInstanceAs (Decidable ((s.isInflight job tid).2 = false))
  | .tick _ [] _ _ | .tick _ (_ :: _ :: _) _ _ => .isTrue trivial
  | .start _ | .finish _ | .timeout _ | .proceed _ | .callback _ => .isTrue trivial

/-! ### Runs -/

section Runs

variable {s s' : State Job Tenant} {job : Job}

/-- **A tick** that finds exactly one active tenant is safe if it finds no iteration of it in
flight; with several tenants it always is. -/
theorem Covered.tick {tenants due : List Tenant} {parallel : ℕ} (h : Covered s (awaitedBy s))
    (hskip : SkipsInflight s (.tick job tenants due parallel))
    (hstep : Step s (.tick job tenants due parallel) s') : Covered s' (awaitedBy s') := by
  simp only [Step, State.step, Option.ite_none_right_eq_some] at hstep
  obtain ⟨⟨hidle, hnodup, hdue⟩, hstep⟩ := hstep
  have hothers : Covered s (awaitedByOthers s job) :=
    h.of_awaited_isDone fun _ haw => by simp [hidle, Pass.Awaits] at haw
  have hticks : Covered { s with ticks := s.ticks + 1 } (awaitedByOthers s job) :=
    ⟨hothers.fresh, hothers.covered, hothers.unique⟩
  split at hstep
  · next tid =>
    obtain rfl := Option.some.inj hstep
    refine Covered.runSingle hticks fun id hl => ?_
    exact (hothers.awaited_of_isInflight hskip hl).1 rfl
  · obtain rfl := Option.some.inj hstep
    exact Covered.runForTenants (hnodup.sublist hdue) hticks parallel

/-- **The budget of a tick is over.** What the tick awaits is done or left in the background. -/
theorem Covered.timeout (h : Covered s (awaitedBy s)) (hstep : Step s (.timeout job) s') :
    Covered s' (awaitedBy s') := by
  simp only [Step, State.step] at hstep
  split at hstep
  · next id rest hpass =>
    simp only [Option.ite_none_left_eq_some] at hstep
    obtain ⟨hdone, hstep⟩ := hstep
    obtain rfl := Option.some.inj hstep
    obtain ⟨-, hframe⟩ := s.leaveInBackground_frame id
    have hleave := h.leaveInBackground (by simpa using hdone)
    refine Covered.sequentialLoop (hleave.mono fun job' id' haw => ?_)
    rw [awaitedByOthers_congr hframe]
    refine ⟨?_, haw.1⟩
    rintro rfl
    exact haw.2 (by simpa [awaitedBy, hpass, Pass.Awaits] using haw.1)
  · next started hpass =>
    obtain rfl := Option.some.inj hstep
    have hpending : ∀ id ∈ started.filter fun id => !s.isDone id, s.isDone id = false := by
      intro id hid
      simpa using (List.mem_filter.mp hid).2
    have hlive : Covered s fun job' id => awaitedBy s job' id ∧ s.isDone id = false :=
      h.of_isDone fun _ _ haw hnot => ⟨haw, hnot⟩
    obtain ⟨hfold, hframe⟩ := hlive.foldl_leaveInBackground hpending
    refine hfold.setPass .idle fun job' id haw => Or.inl ?_
    rw [awaitedByOthers_congr hframe]
    refine ⟨?_, haw.1.1⟩
    rintro rfl
    have hmem : id ∈ started := by simpa [awaitedBy, hpass, Pass.Awaits] using haw.1.1
    exact haw.2 (List.mem_filter.mpr ⟨hmem, by simp [haw.1.2]⟩)
  · cases hstep

/-- **A tick goes on** when everything it awaits is done. -/
theorem Covered.proceed (h : Covered s (awaitedBy s)) (hstep : Step s (.proceed job) s') :
    Covered s' (awaitedBy s') := by
  simp only [Step, State.step] at hstep
  split at hstep
  · next id hpass =>
    obtain ⟨hdone, rfl⟩ := made_of_guard hstep
    refine (h.of_awaited_isDone ?_).setPass .idle fun _ _ => Or.inl
    simpa [hpass, Pass.Awaits] using hdone
  · next id rest hpass =>
    obtain ⟨hdone, rfl⟩ := made_of_guard hstep
    refine (h.of_awaited_isDone ?_).sequentialLoop
    simpa [hpass, Pass.Awaits] using hdone
  · next started hpass =>
    obtain ⟨hdone, rfl⟩ := made_of_guard hstep
    refine (h.of_awaited_isDone ?_).setPass .idle fun _ _ => Or.inl
    simpa [hpass, Pass.Awaits] using hdone
  · cases hstep

/-- **One event.** -/
theorem Covered.step {e : Event Job Tenant} (h : Covered s (awaitedBy s))
    (hskip : SkipsInflight s e) (hstep : Step s e s') : Covered s' (awaitedBy s') := by
  cases e with
  | tick job tenants due parallel => exact h.tick hskip hstep
  | timeout job => exact h.timeout hstep
  | start id =>
    simp only [Step, State.step] at hstep
    split at hstep
    · next t ht =>
      simp only [Option.ite_none_right_eq_some] at hstep
      obtain ⟨⟨hcreated, -⟩, hstep⟩ := hstep
      obtain rfl := Option.some.inj hstep
      exact h.setPhase (by simp [State.isDone, ht, hcreated]) .running
    · cases hstep
  | finish id =>
    simp only [Step, State.step, Option.ite_none_right_eq_some] at hstep
    obtain ⟨hrunning, hstep⟩ := hstep
    obtain rfl := Option.some.inj hstep
    refine h.setPhase ?_ .done
    cases ht : s.task id with
    | none => simp [ht] at hrunning
    | some t =>
      have hphase : t.phase = .running := by simpa [ht] using hrunning
      simp [State.isDone, ht, hphase]
  | proceed job => exact h.proceed hstep
  | callback id =>
    simp only [Step, State.step] at hstep
    split at hstep
    · next t ht =>
      simp only [Option.ite_none_right_eq_some] at hstep
      obtain ⟨hdone, hstep⟩ := hstep
      obtain rfl := Option.some.inj hstep
      split_ifs with hin
      · exact h.setInflight_none hin (by simp [State.isDone, ht, hdone])
      · exact h
    · cases hstep

/-- **No overlap.** In every state reached by a run in which every tick that finds exactly one
active tenant finds no iteration of it in flight, at most one iteration of a job runs for a
tenant. -/
theorem running_unique {l : List (Event Job Tenant)}
    (hrun : Run (Guarded SkipsInflight Step) (State.init Job Tenant) l s) {id id' : ℕ}
    {key : Job × Tenant} (hid : s.Running id key) (hid' : s.Running id' key) : id = id' := by
  have h : Covered s (awaitedBy s) :=
    hrun.invariant (I := fun s => Covered s (awaitedBy s))
      (fun _ _ _ hinv hstep => hinv.step hstep.1 hstep.2) covered_init
  obtain ⟨t, ht, hphase, hkey⟩ := hid
  obtain ⟨t', ht', hphase', hkey'⟩ := hid'
  exact h.unique id id' key ⟨t, ht, by simp [hphase], hkey⟩ ⟨t', ht', by simp [hphase'], hkey'⟩

end Runs

/-- Job 0 with two tenants, one after another: the iteration of tenant 1 outlives its budget, that
of tenant 2 ends. -/
def sampleTwoTenants : List (Event ℕ ℕ) :=
  [.tick 0 [1, 2] [1, 2] 1, .start 0, .timeout 0, .start 1, .finish 1, .proceed 0]

/-- The iterations of job 0 for tenant 1 that run. -/
def sampleView (s : State ℕ ℕ) : List ℕ :=
  (List.range s.tasks).filter fun id =>
    (s.task id).any fun t => t.phase = .running ∧ (t.job, t.tenant) = (0, 1)

theorem running_of_mem_sampleView {s : State ℕ ℕ} {id : ℕ} (h : id ∈ sampleView s) :
    s.Running id (0, 1) := by
  have hany := (List.mem_filter.mp h).2
  cases ht : s.task id with
  | none => simp [ht] at hany
  | some t => exact ⟨t, ht, by simpa [ht] using hany⟩

/-- The second tick skips tenant 1, whose iteration is still running. -/
theorem running_unique_two_tenants :
    ∃ s : State ℕ ℕ,
      Run (Guarded SkipsInflight Step) (State.init ℕ ℕ)
        (sampleTwoTenants ++ [.tick 0 [1, 2] [1, 2] 1]) s ∧
      s.Running 0 (0, 1) ∧ ∀ id, s.Running id (0, 1) → id = 0 := by
  have hview : ((sampleTwoTenants ++ [Event.tick 0 [1, 2] [1, 2] 1]).foldlM
      (fun s e => if SkipsInflight s e then s.step e else none) (State.init ℕ ℕ)).bind
        (fun s => some (sampleView s)) = some [0] := by decide
  obtain ⟨s, hs, hview⟩ := Option.bind_eq_some_iff.mp hview
  have hrun := Run.guarded_of_foldlM hs
  have hzero : s.Running 0 (0, 1) :=
    running_of_mem_sampleView (Option.some.inj hview ▸ List.mem_singleton_self 0)
  exact ⟨s, hrun, hzero, fun id hid => running_unique hrun hid hzero⟩

/-- Tenant 2 is gone when the second tick fires: the plain call starts a second iteration for
tenant 1. -/
theorem overlap_after_shrinking :
    ¬∀ (l : List (Event ℕ ℕ)) (s : State ℕ ℕ), Run Step (State.init ℕ ℕ) l s →
      ∀ id id' key, s.Running id key → s.Running id' key → id = id' := by
  intro hall
  have hview : ((sampleTwoTenants ++ [Event.tick 0 [1] [1] 1]).foldlM (fun s e => State.step s e)
      (State.init ℕ ℕ)).bind (fun s => some (sampleView s)) = some [0, 2] := by decide
  obtain ⟨s, hs, hview⟩ := Option.bind_eq_some_iff.mp hview
  have hmem (id : ℕ) (hid : id ∈ [0, 2]) : s.Running id (0, 1) :=
    running_of_mem_sampleView (Option.some.inj hview ▸ hid)
  have heq := hall _ s (Run.of_foldlM hs) 0 2 (0, 1) (hmem 0 (by simp)) (hmem 2 (by simp))
  exact absurd heq (by decide)

end Nodeglow.TenantRunner
