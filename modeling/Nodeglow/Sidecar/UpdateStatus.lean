import Nodeglow.Sidecar.DumpRetention

/-!
# Update runs, scheduled dumps and the status

The sidecar runs an update in a worker thread and scheduled dumps in a thread of their own. A lock
guards the decision which of them may start. What a run is doing is mirrored to a file, and
`/status` reports that file before anything the process itself knows. A restart of the sidecar ends
its threads and leaves the file.

A worker thread is modelled by what it has still to do between two calls of `write_state`. It takes
its steps interleaved with requests, the slots of the schedule, crashes and restarts.

## Main results

* `exists_work_runSteps` — alone, a worker does what `runSteps` says.
* `exclusive_and_truthful` — runs and dumps exclude each other, and a status that says running is
  that of an active run or of one that was cut off.
* `running_for_ever` — after a restart in the middle of a run the status says running until the
  next run.

Source: `sidecar/update-server.py`, lines 70–79 and 288–361; `sidecar/orchestrator.py`, lines
154–195.
-/

namespace Nodeglow.Sidecar.Update

open Sidecar.Backup (BackupStatus)

/-! ### The worker thread -/

/-- What a worker thread does next. -/
inductive Worker
  /-- It starts the run. -/
  | starting (runId : String) (names : List StepName)
  /-- It starts the first of the steps that are left, or ends the run. -/
  | between (state : UpdateState) (rest : List StepName)
  /-- It ends a step. -/
  | inStep (state : UpdateState) (name : StepName) (rest : List StepName)
  /-- `run_update` has returned. -/
  | returned (state : UpdateState)
deriving DecidableEq, Repr

/-- What a worker learns until it writes the next state: the time, the result of the function of a
step, and whether `write_state` has replaced the file. -/
structure Answer where
  now : String
  result : Except Exn String
  written : Bool

/-- The next write of `run_update`, and the state that is written. -/
def Worker.next (answer : Answer) : Worker → Option (Worker × UpdateState)
  | starting runId names =>
    let state := UpdateState.new runId names answer.now
    some (between state names, state)
  | between state [] =>
    let state := { state with step := none, status := .done, finishedAt := some answer.now }
    some (returned state, state)
  | between state (name :: rest) =>
    let state := { state with step := some name }.setStep name fun s => { s with status := .running }
    some (inStep state name rest, state)
  | inStep state name rest =>
    match answer.result with
    | .ok detail =>
      let state := state.setStep name fun s => { s with status := .ok, detail := some detail }
      some (between state rest, state)
    | .error e =>
      let state := { state.setStep name fun s => { s with status := .failed } with
        status := .failed
        error := some (name.name ++ ": " ++ Text.lastChars maxErrorChars e.text)
        finishedAt := some answer.now }
      some (returned state, state)
  | returned _ => none

/-- A worker and the state file. -/
def Worker.work (p : Worker × Option UpdateState) (answer : Answer) :
    Option (Worker × Option UpdateState) :=
  (p.1.next answer).map fun q => (q.1, if answer.written then some q.2 else p.2)

/-- **Alone, a worker does what `runSteps` says**: with the answers of an environment it returns the
state of the run, and leaves in the file what the run has recorded. -/
theorem exists_work_runSteps (env : Environment) (steps : List (StepName × Action String))
    (state : UpdateState) (recorded : Option UpdateState) (w : World) :
    ∃ answers : List Answer,
      answers.foldlM Worker.work (.between state (steps.map Prod.fst), recorded) =
        some (.returned (runSteps env steps state recorded w).state,
          (runSteps env steps state recorded w).recorded) := by
  induction steps generalizing state recorded w with
  | nil =>
    refine ⟨[⟨env.now .done, .ok "", (env.failure (.record .done)).isNone⟩], ?_⟩
    simp [Worker.work, Worker.next, runSteps, writeState]
  | cons p rest ih =>
    obtain ⟨name, fn⟩ := p
    let begun : Answer := ⟨"", .ok "", (env.failure (.record (.running name))).isNone⟩
    cases hfn : fn w with
    | error e w' =>
      refine ⟨[begun, ⟨env.now (.ended name), .error e,
        (env.failure (.record (.ended name))).isNone⟩], ?_⟩
      simp [Worker.work, Worker.next, runSteps, writeState, hfn, begun]
    | ok detail w' =>
      let ended : Answer := ⟨"", .ok detail, (env.failure (.record (.ended name))).isNone⟩
      obtain ⟨answers, hanswers⟩ := ih
        (({ state with step := some name }.setStep name fun s =>
          { s with status := .running }).setStep name fun s =>
            { s with status := .ok, detail := some detail })
        (writeState env (.ended name) (({ state with step := some name }.setStep name fun s =>
          { s with status := .running }).setStep name fun s =>
            { s with status := .ok, detail := some detail })
          (writeState env (.running name) ({ state with step := some name }.setStep name fun s =>
            { s with status := .running }) recorded)) w'
      refine ⟨begun :: ended :: answers, ?_⟩
      simp only [runSteps, hfn]
      rw [← hanswers]
      simp [Worker.work, Worker.next, writeState, begun, ended]

/-- A run that has returned is done or failed. -/
theorem status_of_next {w : Worker} {answer : Answer} {state written : UpdateState}
    (h : w.next answer = some (.returned state, written)) :
    state = written ∧ state.status ≠ .running := by
  cases w with
  | starting runId names => simp [Worker.next] at h
  | between old rest =>
    cases rest with
    | nil =>
      obtain ⟨rfl, rfl⟩ : _ = state ∧ _ = written := by simpa [Worker.next] using h
      exact ⟨rfl, by simp⟩
    | cons name rest => simp [Worker.next] at h
  | inStep old name rest =>
    unfold Worker.next at h
    cases hresult : answer.result with
    | ok detail => simp [hresult] at h
    | error e =>
      simp only [hresult, Option.some.injEq, Prod.mk.injEq, Worker.returned.injEq] at h
      obtain ⟨rfl, rfl⟩ := h
      exact ⟨rfl, by simp⟩
  | returned old => simp [Worker.next] at h

/-! ### The process -/

/-- The answer to a request. -/
structure Response where
  code : ℕ
  ok : Bool
  error : Option String
  runId : Option String
deriving DecidableEq, Repr

structure Server where
  /-- What can be read from the state file. -/
  file : Option UpdateState
  /-- The worker threads that are alive, and the number of those created so far. -/
  threads : List (ℕ × Worker)
  created : ℕ
  /-- `_run_thread` and `_run_state`. -/
  runThread : Option ℕ
  runState : Option UpdateState
  /-- `_backup_status["running"]` and `_backup_status["last"]`. -/
  backupRunning : Bool
  backupLast : Option BackupStatus
  /-- A scheduled dump is being taken. -/
  dumping : Bool
deriving DecidableEq, Repr

/-- A process that starts and finds a file. -/
def Server.start (file : Option UpdateState) (created : ℕ) : Server :=
  { file := file
    threads := []
    created := created
    runThread := none
    runState := none
    backupRunning := false
    backupLast := none
    dumping := false }

/-- A new installation. -/
def init : Server := .start none 0

variable (s : Server)

/-- `_run_thread is not None and _run_thread.is_alive()`. -/
def isAlive : Bool := s.runThread.any fun t => s.threads.any fun p => p.1 = t

/-- `start_run`. -/
def startRun (runId : String) (names : List StepName) : Server × Response :=
  if isAlive s then (s, ⟨409, false, some "An update run is already active", none⟩)
  else if s.backupRunning then
    (s, ⟨409, false, some "A scheduled backup is running; retry in a few minutes", none⟩)
  else
    ({ s with
        runState := none
        threads := (s.created, .starting runId names) :: s.threads
        runThread := some s.created
        created := s.created + 1 },
      ⟨202, true, none, some runId⟩)

/-- `scheduled_backup_once`, up to its dump. -/
def scheduledBackupOnce : Server :=
  if isAlive s then s else { s with backupRunning := true, dumping := true }

/-- The end of `scheduled_backup_once`. -/
def backupEnded (result : BackupStatus) : Server :=
  { s with dumping := false, backupRunning := false, backupLast := some result }

/-- `current_status`, where nothing stands for `idle_state()`. -/
def currentStatus : Option UpdateState := s.file.or s.runState

/-- The worker with a number. -/
def Server.worker (t : ℕ) : Option Worker := (s.threads.find? fun p => p.1 = t).map Prod.snd

/-- The threads without one that has ended. -/
def Server.without (t : ℕ) : List (ℕ × Worker) := s.threads.filter fun p => p.1 ≠ t

/-- What can happen next. -/
inductive Event
  /-- A request to update. -/
  | request (runId : String) (names : List StepName)
  /-- A slot of the schedule. -/
  | slot
  /-- A scheduled dump succeeds or fails. -/
  | dumpEnds (result : BackupStatus)
  /-- A worker writes its next state. -/
  | work (t : ℕ) (answer : Answer)
  /-- A worker ends after its run. -/
  | finish (t : ℕ)
  /-- A worker ends with an exception. -/
  | crash (t : ℕ)
  | restart

/-- The next state, if the event can happen. -/
def step : Event → Option Server
  | .request runId names => some (startRun s runId names).1
  | .slot => if s.dumping then none else some (scheduledBackupOnce s)
  | .dumpEnds result => if s.dumping then some (backupEnded s result) else none
  | .work t answer =>
    (s.worker t).bind fun w => (Worker.work (w, s.file) answer).map fun p =>
      { s with file := p.2, threads := s.threads.map fun q => if q.1 = t then (t, p.1) else q }
  | .finish t =>
    match s.worker t with
    | some (.returned state) => some { s with threads := s.without t, runState := some state }
    | _ => none
  | .crash t => (s.worker t).map fun _ => { s with threads := s.without t }
  | .restart => some (.start s.file s.created)

/-- The step relation. -/
def Step (s : Server) (e : Event) (s' : Server) : Prop := step s e = some s'

/-- An update run is active. -/
def Server.Updating : Prop := s.threads ≠ []

/-- The number of update runs and scheduled dumps that are active. -/
def Server.active : ℕ := s.threads.length + s.dumping.toNat

/-- The status says that an update is running. -/
def Server.SaysRunning : Prop := ∃ state, currentStatus s = some state ∧ state.status = .running

variable {s} {s' : Server} {l : List Event} {e : Event}

/-- The event replaces the state file. -/
def Event.Records : Event → Prop
  | .work _ answer => answer.written = true
  | _ => False

/-- With the event, an active run ends in `s'` or will end, and it does not record its end: a
restart, an exception of the runner, or a last state that could not be written. -/
def Event.Cuts (e : Event) (s' : Server) : Prop :=
  match e with
  | .restart | .crash _ => True
  | .work t answer => answer.written = false ∧ ∃ state, s'.worker t = some (.returned state)
  | _ => False

/-- The last run was cut off: it did not record its end, and since then nothing has been written. -/
def CutOff (l : List Event) (s : Server) : Prop :=
  ∃ front e back t t', l = front ++ e :: back ∧ Run Step init front t ∧ t.Updating ∧ Step t e t' ∧
    e.Cuts t' ∧ Run Step t' back s ∧ ∀ a ∈ back, ¬ a.Records

/-! ### Exclusion -/

/-- At most one thread is alive, it is the one the lock looks at, and none is while a dump is
taken. -/
structure Server.Inv (s : Server) : Prop where
  one : s.threads.length ≤ 1
  runThread : ∀ p ∈ s.threads, s.runThread = some p.1
  dumping : s.dumping = true → s.threads = []
  flag : s.backupRunning = s.dumping

namespace Server

theorem inv_start (file : Option UpdateState) (created : ℕ) : (Server.start file created).Inv :=
  ⟨by simp [Server.start], by simp [Server.start], by simp [Server.start], rfl⟩

theorem Inv.isAlive (h : s.Inv) : isAlive s = true ↔ s.Updating := by
  unfold Update.isAlive Updating
  cases hthreads : s.threads with
  | nil => simp
  | cons p rest =>
    have hp := h.runThread p (by simp [hthreads])
    simp [hp]

theorem Inv.threads_eq (h : s.Inv) {t : ℕ} {w : Worker} (hw : s.worker t = some w) :
    s.threads = [(t, w)] := by
  unfold worker at hw
  obtain ⟨p, hp, rfl⟩ := Option.map_eq_some_iff.mp hw
  have hmem := List.mem_of_find?_eq_some hp
  have ht : p.1 = t := by simpa using List.find?_some hp
  obtain ⟨q, hq⟩ := List.length_eq_one_iff.mp
    (le_antisymm h.one (List.length_pos_of_mem hmem))
  rw [hq, List.mem_singleton] at hmem
  rw [hq, ← hmem, ← ht]

theorem without_eq {t : ℕ} {w : Worker} (h : s.threads = [(t, w)]) : s.without t = [] := by
  simp [without, h]

/-- What an event does to a server in which the threads are exclusive. -/
theorem Inv.step_cases (h : s.Inv) (hstep : Step s e s') :
    (s' = s ∧ ¬ e.Records) ∨
    (∃ runId names, e = .request runId names ∧ s.threads = [] ∧ s.dumping = false ∧
      s' = { s with
        runState := none
        threads := [(s.created, .starting runId names)]
        runThread := some s.created
        created := s.created + 1 }) ∨
    (e = .slot ∧ ¬ s.Updating ∧ s' = { s with backupRunning := true, dumping := true }) ∨
    (∃ result, e = .dumpEnds result ∧ s' = backupEnded s result) ∨
    (∃ t w w' state answer, e = .work t answer ∧ s.threads = [(t, w)] ∧
      w.next answer = some (w', state) ∧
      s' = { s with
        file := if answer.written then some state else s.file
        threads := [(t, w')] }) ∨
    (∃ t state, e = .finish t ∧ s.threads = [(t, .returned state)] ∧
      s' = { s with threads := [], runState := some state }) ∨
    (∃ t w, e = .crash t ∧ s.threads = [(t, w)] ∧ s' = { s with threads := [] }) ∨
    (e = .restart ∧ s' = .start s.file s.created) := by
  unfold Step step at hstep
  cases e with
  | request runId names =>
    obtain rfl := Option.some.inj hstep
    unfold startRun
    split
    · exact .inl ⟨rfl, id⟩
    · rename_i halive
      rw [h.isAlive] at halive
      split
      · exact .inl ⟨rfl, id⟩
      · rename_i hflag
        rw [h.flag, Bool.not_eq_true] at hflag
        rw [Updating, not_ne_iff] at halive
        exact .inr (.inl ⟨runId, names, rfl, halive, hflag, by rw [halive]⟩)
  | slot =>
    simp only [Option.ite_none_left_eq_some, Option.some.injEq] at hstep
    obtain ⟨-, rfl⟩ := hstep
    unfold scheduledBackupOnce
    split
    · exact .inl ⟨rfl, id⟩
    · rename_i halive
      rw [h.isAlive] at halive
      exact .inr (.inr (.inl ⟨rfl, halive, rfl⟩))
  | dumpEnds result =>
    simp only [Option.ite_none_right_eq_some, Option.some.injEq] at hstep
    exact .inr (.inr (.inr (.inl ⟨result, rfl, hstep.2.symm⟩)))
  | work t answer =>
    obtain ⟨w, hw, hstep⟩ := Option.bind_eq_some_iff.mp hstep
    obtain ⟨p, hp, rfl⟩ := Option.map_eq_some_iff.mp hstep
    obtain ⟨q, hq, rfl⟩ := Option.map_eq_some_iff.mp hp
    have hthreads := h.threads_eq hw
    exact .inr (.inr (.inr (.inr (.inl
      ⟨t, w, q.1, q.2, answer, rfl, hthreads, hq, by simp [hthreads]⟩))))
  | finish t =>
    cases hw : s.worker t with
    | none => simp [hw] at hstep
    | some w =>
      cases w with
      | returned state =>
        have hthreads := h.threads_eq hw
        simp only [hw, Option.some.injEq] at hstep
        rw [without_eq hthreads] at hstep
        exact .inr (.inr (.inr (.inr (.inr (.inl ⟨t, state, rfl, hthreads, hstep.symm⟩)))))
      | _ => simp [hw] at hstep
  | crash t =>
    obtain ⟨w, hw, rfl⟩ := Option.map_eq_some_iff.mp hstep
    have hthreads := h.threads_eq hw
    rw [without_eq hthreads]
    exact .inr (.inr (.inr (.inr (.inr (.inr (.inl ⟨t, w, rfl, hthreads, rfl⟩))))))
  | restart =>
    exact .inr (.inr (.inr (.inr (.inr (.inr (.inr ⟨rfl, (Option.some.inj hstep).symm⟩))))))

theorem Inv.step (h : s.Inv) (hstep : Step s e s') : s'.Inv := by
  rcases h.step_cases hstep with ⟨rfl, -⟩ | ⟨runId, names, rfl, -, hdumping, rfl⟩ |
    ⟨rfl, hidle, rfl⟩ | ⟨result, rfl, rfl⟩ | ⟨t, w, w', state, answer, rfl, hthreads, -, rfl⟩ |
    ⟨t, state, rfl, hthreads, rfl⟩ | ⟨t, w, rfl, hthreads, rfl⟩ | ⟨rfl, rfl⟩
  · exact h
  · exact ⟨by simp, by simp, by simp [hdumping], h.flag⟩
  · exact ⟨h.one, h.runThread, fun _ => not_ne_iff.mp hidle, rfl⟩
  · exact ⟨h.one, h.runThread, by simp [backupEnded], rfl⟩
  · refine ⟨by simp, ?_, ?_, h.flag⟩
    · intro p hp
      rw [List.mem_singleton.mp hp]
      exact h.runThread (t, w) (by simp [hthreads])
    · intro hdumping
      simp [h.dumping hdumping] at hthreads
  · exact ⟨by simp, by simp, fun _ => rfl, h.flag⟩
  · exact ⟨by simp, by simp, fun _ => rfl, h.flag⟩
  · exact inv_start _ _

theorem inv_of_run (hrun : Run Step init l s) : s.Inv :=
  hrun.invariant (I := Inv) (fun _ _ _ h hstep => h.step hstep) (inv_start _ _)

theorem Inv.active_le_one (h : s.Inv) : s.active ≤ 1 := by
  unfold active
  cases hdumping : s.dumping with
  | false => simpa using h.one
  | true => simp [h.dumping hdumping]

/-- While a run or a dump is active, a request is refused and changes nothing. -/
theorem Inv.startRun_of_active (h : s.Inv) (hactive : 0 < s.active) (runId : String)
    (names : List StepName) :
    (startRun s runId names).1 = s ∧ (startRun s runId names).2.code = 409 := by
  unfold startRun
  split
  · exact ⟨rfl, rfl⟩
  · rename_i halive
    rw [h.isAlive, Updating, not_ne_iff] at halive
    have hflag : s.backupRunning = true := by
      rw [h.flag]
      cases hdumping : s.dumping with
      | false => simp [active, halive, hdumping] at hactive
      | true => rfl
    simp [hflag]

/-- While a run is active, a slot of the schedule is skipped. -/
theorem Inv.scheduledBackupOnce_of_updating (h : s.Inv) (hactive : s.Updating) :
    scheduledBackupOnce s = s := by
  rw [scheduledBackupOnce, if_pos (h.isAlive.mpr hactive)]

end Server

/-! ### The status -/

section Status

theorem CutOff.step (h : CutOff l s) (hstep : Step s e s') (he : ¬ e.Records) :
    CutOff (l ++ [e]) s' := by
  obtain ⟨front, cut, back, t, t', rfl, hfront, hupdating, hcut, hcuts, hback, hrecords⟩ := h
  refine ⟨front, cut, back ++ [e], t, t', by simp, hfront, hupdating, hcut, hcuts,
    hback.append (.single hstep), ?_⟩
  intro a ha
  rcases List.mem_append.mp ha with ha | ha
  · exact hrecords a ha
  · rw [List.mem_singleton.mp ha]
    exact he

theorem CutOff.of_cuts (hrun : Run Step init l s) (hupdating : s.Updating) (hstep : Step s e s')
    (he : e.Cuts s') : CutOff (l ++ [e]) s' :=
  ⟨l, e, [], s, s', rfl, hrun, hupdating, hstep, he, .nil s', by simp⟩

/-- What the file and the memory of the process say after some events. -/
structure Truthful (l : List Event) (s : Server) : Prop where
  /-- A run that has returned is in the file, or could not be written. -/
  returned : ∀ t state, (t, Worker.returned state) ∈ s.threads →
    state.status ≠ .running ∧ (s.file = some state ∨ CutOff l s)
  /-- Without a run the file says running only if a run was cut off. -/
  file : s.threads = [] → ∀ state, s.file = some state → state.status = .running → CutOff l s
  runState : ∀ state, s.runState = some state → state.status ≠ .running

/-- An event that writes nothing and leaves the threads alone. -/
theorem Truthful.step (h : Truthful l s) (hstep : Step s e s') (he : ¬ e.Records)
    (hthreads : s'.threads = s.threads) (hfile : s'.file = s.file)
    (hrunState : s'.runState = s.runState) : Truthful (l ++ [e]) s' where
  returned := by
    intro t state ht
    rw [hthreads] at ht
    obtain ⟨hstatus, hcut⟩ := h.returned t state ht
    rw [hfile]
    exact ⟨hstatus, hcut.imp_right fun hcut => hcut.step hstep he⟩
  file := by
    intro hidle state hstate hrunning
    rw [hthreads] at hidle
    rw [hfile] at hstate
    exact (h.file hidle state hstate hrunning).step hstep he
  runState := by
    rw [hrunState]
    exact h.runState

theorem truthful_of_run (hrun : Run Step init l s) : Truthful l s := by
  induction l using List.reverseRecOn generalizing s with
  | nil =>
    cases hrun
    exact ⟨by simp [init, Server.start], by simp [init, Server.start], by simp [init, Server.start]⟩
  | append_singleton l e ih =>
    obtain ⟨s₀, hrun, hlast⟩ := hrun.exists_middle_of_append
    obtain ⟨_, hstep, hnil⟩ : ∃ t, Step s₀ e t ∧ Run Step t [] s := by
      cases hlast with
      | cons h hl => exact ⟨_, h, hl⟩
    cases hnil
    have h := ih hrun
    have hinv := Server.inv_of_run hrun
    have hcases := hinv.step_cases hstep
    have hcut := fun hupdating he => CutOff.of_cuts hrun hupdating hstep he
    rcases hcases with ⟨rfl, he⟩ | ⟨runId, names, rfl, -, -, rfl⟩ | ⟨rfl, -, rfl⟩ |
      ⟨result, rfl, rfl⟩ | ⟨t, w, w', written, answer, rfl, hthreads, hnext, rfl⟩ |
      ⟨t, state, rfl, hthreads, rfl⟩ | ⟨t, w, rfl, hthreads, rfl⟩ | ⟨rfl, rfl⟩
    · exact h.step hstep he rfl rfl rfl
    · exact ⟨by simp, by simp, by simp⟩
    · exact h.step hstep id rfl rfl rfl
    · exact h.step hstep id rfl rfl rfl
    · -- a worker that has returned has written its last state, or could not
      refine ⟨?_, by simp, h.runState⟩
      intro t' state ht'
      obtain ⟨rfl, rfl⟩ : t' = t ∧ .returned state = w' := by simpa using ht'
      obtain ⟨rfl, hstatus⟩ := status_of_next hnext
      refine ⟨hstatus, ?_⟩
      by_cases hwritten : answer.written = true
      · exact .inl (if_pos hwritten)
      · refine .inr (hcut (by simp [Server.Updating, hthreads])
          ⟨by simpa using hwritten, state, ?_⟩)
        simp [Server.worker]
    · obtain ⟨hstatus, hfile⟩ := h.returned t state (by simp [hthreads])
      refine ⟨by simp, ?_, by simpa using hstatus⟩
      intro _ state' hstate' hrunning
      rcases hfile with hfile | hcutOff
      · obtain rfl := Option.some.inj (hfile.symm.trans hstate')
        exact absurd hrunning hstatus
      · exact hcutOff.step hstep id
    · have hcutOff := hcut (by simp [Server.Updating, hthreads]) trivial
      exact ⟨by simp, fun _ _ _ _ => hcutOff, h.runState⟩
    · refine ⟨by simp [Server.start], ?_, by simp [Server.start]⟩
      intro _ state hstate hrunning
      by_cases hidle : s₀.threads = []
      · exact (h.file hidle state hstate hrunning).step hstep id
      · exact hcut hidle trivial

/-- **Runs and dumps exclude each other, and the status is truthful.** At most one of them is
active; while one is active a request is refused, and while a run is active a slot is skipped. A
status that says running is that of an active run, or of one that was cut off and after which
nothing has been written. -/
theorem exclusive_and_truthful (hrun : Run Step init l s) :
    s.active ≤ 1 ∧
      (0 < s.active → ∀ runId names,
        (startRun s runId names).1 = s ∧ (startRun s runId names).2.code = 409) ∧
      (s.Updating → scheduledBackupOnce s = s) ∧
      (s.SaysRunning → s.Updating ∨ CutOff l s) := by
  have hinv := Server.inv_of_run hrun
  have htruth := truthful_of_run hrun
  refine ⟨hinv.active_le_one, hinv.startRun_of_active, hinv.scheduledBackupOnce_of_updating, ?_⟩
  rintro ⟨state, hstate, hrunning⟩
  by_cases hidle : s.threads = []
  · refine .inr ?_
    unfold currentStatus at hstate
    rcases Option.or_eq_some_iff.mp hstate with hfile | ⟨-, hrunState⟩
    · exact htruth.file hidle state hfile hrunning
    · exact absurd hrunning (htruth.runState state hrunState)
  · exact .inl hidle

end Status

/-! ### A restart in the middle of a run -/

/-- The event is a request to update. -/
def Event.IsRequest (e : Event) : Prop := ∃ runId names, e = .request runId names

/-- Where no run is active, only a request changes what the file says. -/
theorem file_of_no_request (h : s.Inv) (hidle : s.threads = []) (hrun : Run Step s l s')
    (hl : ∀ e ∈ l, ¬ e.IsRequest) : s'.threads = [] ∧ s'.file = s.file := by
  suffices h' : s'.Inv ∧ s'.threads = [] ∧ s'.file = s.file from h'.2
  refine hrun.invariant_of_forall (I := fun t => t.Inv ∧ t.threads = [] ∧ t.file = s.file)
    (fun t e t' he ht hstep => ?_) hl ⟨h, hidle, rfl⟩
  obtain ⟨hinv, hthreads, hfile⟩ := ht
  refine ⟨hinv.step hstep, ?_⟩
  rcases hinv.step_cases hstep with ⟨rfl, -⟩ | ⟨runId, names, rfl, -⟩ | ⟨rfl, -, rfl⟩ |
    ⟨result, rfl, rfl⟩ | ⟨k, w, w', state, answer, rfl, hworker, -⟩ | ⟨k, state, rfl, hworker, -⟩ |
    ⟨k, w, rfl, hworker, -⟩ | ⟨rfl, rfl⟩
  · exact ⟨hthreads, hfile⟩
  · exact absurd ⟨runId, names, rfl⟩ he
  · exact ⟨hthreads, hfile⟩
  · exact ⟨hthreads, hfile⟩
  · simp [hthreads] at hworker
  · simp [hthreads] at hworker
  · simp [hthreads] at hworker
  · exact ⟨rfl, hfile⟩

/-- A run of one step is started, writes its first state, and the process is restarted. -/
def sampleEvents : List Event :=
  [.request "2026-10-10T12-00-00" [.preflight], .work 0 ⟨"2026-10-10T12:00:00", .ok "", true⟩,
    .restart]

/-- The server after that. -/
def sampleServer : Server :=
  .start (some (.new "2026-10-10T12-00-00" [.preflight] "2026-10-10T12:00:00")) 1

theorem run_sampleEvents : Run Step init sampleEvents sampleServer :=
  Run.of_foldlM (by rfl)

/-- After a restart in the middle of a run no run is active, and the status says running as long as
no update is requested. -/
theorem running_for_ever : ∃ l s, Run Step init l s ∧ ∀ l' s', Run Step s l' s' →
    (∀ e ∈ l', ¬ e.IsRequest) → s'.SaysRunning ∧ ¬ s'.Updating := by
  refine ⟨sampleEvents, sampleServer, run_sampleEvents, fun l' s' hrun hl' => ?_⟩
  obtain ⟨hidle, hfile⟩ := file_of_no_request (Server.inv_start _ _) rfl hrun hl'
  refine ⟨⟨.new "2026-10-10T12-00-00" [.preflight] "2026-10-10T12:00:00", ?_, rfl⟩,
    not_ne_iff.mpr hidle⟩
  rw [currentStatus, hfile]
  rfl

/-- The law after the run that is cut off: the status says running and is that run's. -/
theorem exclusive_and_truthful_sample :
    sampleServer.active ≤ 1 ∧ CutOff sampleEvents sampleServer := by
  obtain ⟨hactive, -, -, hstatus⟩ := exclusive_and_truthful run_sampleEvents
  refine ⟨hactive, (hstatus ?_).resolve_left ?_⟩
  · exact ⟨_, rfl, rfl⟩
  · simp [Server.Updating, sampleServer, Server.start]

end Nodeglow.Sidecar.Update
