import Mathlib.Data.List.Infix
import Nodeglow.Backend.Integrations.ProxmoxHosts
import Nodeglow.Foundation.ByKey
import Nodeglow.Foundation.Fallible
import Nodeglow.Foundation.GetOrCreate

/-!
# Backups of a Proxmox cluster

A sync makes a job of every guest that a snapshot has a backup of, and a history row of every run.
There are two sources: the backup files of the storages, of which the newest of each guest and
storage counts, and the tasks of the cluster. The files come first. The newest file of a guest is
written into its job whatever that had before, so that of several storages the last one counts; a
task is written only if it is not older.

Where the files could not be read, the snapshot has `None` for them, and the sync raises.

Source: `backend/services/backup_monitor.py`, lines 22–251; `backend/integrations/proxmox.py`, lines
343–362 and 541–551; `backend/models/backup.py`.
-/

namespace Nodeglow.BackupMonitor

open Integrations.Proxmox (Guest)

/-! ### Snapshots -/

/-- A backup file; what the API does not give is empty or zero. -/
structure BackupFile where
  volid : String
  size : ℕ
  ctime : ℕ
  vmid : Option ℤ
deriving DecidableEq, Repr

/-- The backup files by the names of the storages. -/
structure Backups where
  storages : List (String × List BackupFile)
  nodup : (storages.map Prod.fst).Nodup

/-- A parsed task. Its start is a text in the snapshot, which stands for this second; there is none
if the text is missing or of another form. -/
structure Task where
  starttime : Option ℕ
  node : String
  user : String
  type : String
  id : String
  status : String
  ok : Option Bool

structure Snapshot where
  vms : List Guest
  containers : List Guest
  backups : Option Backups
  tasks : List Task

/-! ### Jobs and history -/

inductive RunStatus
  | ok
  | failed
  | running
  | warning
  | unknown
deriving DecidableEq, Repr

structure BackupJob where
  id : ℕ
  name : String
  sourceType : String
  sourceConfigId : Option ℕ
  targetName : String
  targetVmid : Option ℤ
  storageName : Option String
  lastRunAt : Option ℕ
  lastStatus : Option RunStatus
  lastSizeBytes : Option ℕ
  lastError : Option String
deriving DecidableEq, Repr

/-- The object of `details_json`. -/
inductive Details
  | file (volid : String)
  | task (node user : String)
deriving DecidableEq, Repr

structure HistoryRow where
  jobId : ℕ
  timestamp : ℕ
  status : RunStatus
  sizeBytes : Option ℕ
  error : Option String
  details : Details
deriving DecidableEq, Repr

/-- The jobs with distinct ids, the next id of the sequence, and the history. -/
@[ext]
structure Store where
  jobs : List BackupJob
  nextJobId : ℕ
  history : List HistoryRow
  nodup : (jobs.map BackupJob.id).Nodup
  lt : ∀ job ∈ jobs, job.id < nextJobId

/-! ### What a snapshot says -/

/-- `vmid_names`. -/
def vmidNames (data : Snapshot) : ℤ → Option String :=
  (data.vms ++ data.containers).foldl
    (fun names guest =>
      match guest.id with
      | some (gid + 1) =>
        Function.update names (gid + 1 : ℤ)
          (some (guest.name.getD ("guest-" ++ toString (gid + 1))))
      | _ => names)
    fun _ => none

def guestName (data : Snapshot) (vmid : ℤ) : String :=
  (vmidNames data vmid).getD ("guest-" ++ toString vmid)

def jobName (data : Snapshot) (vmid : ℤ) : String :=
  "vzdump-" ++ toString vmid ++ "-" ++ guestName data vmid

/-- A backup file of a guest, and its storage. -/
structure GuestFile where
  vmid : ℤ
  storageName : String
  info : BackupFile
deriving DecidableEq, Repr

/-- The files of a storage that are of a guest. -/
def guestFiles (storageName : String) (files : List BackupFile) : List GuestFile :=
  files.filterMap fun f => f.vmid.map fun vmid => ⟨vmid, storageName, f⟩

/-- `guest_latest`: of each guest and storage a file with the greatest time. -/
def guestLatest (backups : Backups) : List ((ℤ × String) × GuestFile) :=
  bestByKey (fun f => (f.vmid, f.storageName)) (fun f => f.info.ctime)
    (backups.storages.flatMap fun s => guestFiles s.1 s.2)

/-- `_parse_vmid_from_task`: the id as a number, or else the first digits in it. -/
def parseVmidFromTask (taskId : String) : Option ℤ :=
  (Text.parseInt taskId).or (Text.parseInt (String.ofList
    ((taskId.toList.dropWhile fun c => !Text.isDecimal c).takeWhile Text.isDecimal)))

/-- One text is part of another. -/
def contains (text part : String) : Bool := part.toList <:+: text.toList

def mapStatus (py : Text.Lower) (taskStatus : String) (isOk : Option Bool) : RunStatus :=
  if taskStatus = "running" then .running
  else if isOk = some true ∨ taskStatus = "OK" then .ok
  else if isOk = some false ∨ contains (py.lower taskStatus) "error" ∨
      contains taskStatus "WARNINGS" then
    if isOk = some false then .failed else .warning
  else .unknown

/-- A backup task: its guest, its start and its status. -/
structure TaskRun where
  vmid : ℤ
  runDt : ℕ
  mappedStatus : RunStatus
  taskStatus : String
  node : String
  user : String

/-- The tasks that the loop does not skip. -/
def taskRun (py : Text.Lower) (task : Task) : Option TaskRun :=
  if contains task.type "vzdump" ∨ contains (py.lower task.type) "backup" then do
    let vmid ← parseVmidFromTask task.id
    let runDt ← task.starttime
    some ⟨vmid, runDt, mapStatus py task.status task.ok, task.status, task.node, task.user⟩
  else none

/-! ### The sync -/

/-- What the sync raises. -/
inductive SyncError
  | noneHasNoItems
  | timestampOutOfRange (ctime : ℕ)

/-- The last second of the year 9999. -/
def maxTimestamp : ℕ := 253402300799

/-- `datetime.utcfromtimestamp`; the time by its seconds. -/
def utcfromtimestamp (ctime : ℕ) : Except SyncError ℕ :=
  if ctime ≤ maxTimestamp then .ok ctime else .error (.timestampOutOfRange ctime)

structure Defaults where
  name : String
  targetName : String
  storageName : Option String

/-- The rows of the session, and the counts. -/
structure Loop where
  jobs : List BackupJob
  nextJobId : ℕ
  history : List HistoryRow
  created : ℕ
  updated : ℕ
  historyAdded : ℕ

/-- The key of a job for the guests of a Proxmox config. -/
def jobKey (configId : ℕ) (job : BackupJob) : Option ℤ :=
  if job.sourceType = "proxmox" ∧ job.sourceConfigId = some configId then job.targetVmid else none

def newJob (configId : ℕ) (vmid : ℤ) (defaults : Defaults) (id : ℕ) : BackupJob where
  id := id
  name := defaults.name
  sourceType := "proxmox"
  sourceConfigId := some configId
  targetName := defaults.targetName
  targetVmid := some vmid
  storageName := defaults.storageName
  lastRunAt := none
  lastStatus := some .unknown
  lastSizeBytes := none
  lastError := none

def setTargetName (name : String) (job : BackupJob) : BackupJob :=
  if name ≠ "" then { job with targetName := name } else job

def Loop.modify (loop : Loop) (id : ℕ) (f : BackupJob → BackupJob) : Loop :=
  { loop with jobs := loop.jobs.map fun job => if job.id = id then f job else job }

/-- `_get_or_create_job`: the id of the job, and whether it is new. Of several jobs of a guest the
first one counts, in the order of the database. -/
def getOrCreateJob (configId : ℕ) (vmid : ℤ) (defaults : Defaults) (loop : Loop) :
    (ℕ × Bool) × Loop :=
  match loop.jobs.find? fun job => jobKey configId job = some vmid with
  | some job => ((job.id, false), loop.modify job.id (setTargetName defaults.targetName))
  | none =>
    ((loop.nextJobId, true),
      { loop with
        jobs := loop.jobs ++ [newJob configId vmid defaults loop.nextJobId]
        nextJobId := loop.nextJobId + 1 })

/-- Add a history row, if the job has none of this time. -/
def Loop.addHistory (loop : Loop) (row : HistoryRow) : Loop :=
  if loop.history.any fun r => r.jobId = row.jobId ∧ r.timestamp = row.timestamp then loop
  else { loop with history := loop.history ++ [row], historyAdded := loop.historyAdded + 1 }

/-- The newest file in a job. -/
def fileRun (runDt : ℕ) (storageName : String) (info : BackupFile) (job : BackupJob) : BackupJob :=
  { job with
    lastRunAt := some runDt
    lastSizeBytes := some info.size
    lastStatus := some .ok
    lastError := none
    storageName := some storageName }

def syncFile (configId : ℕ) (data : Snapshot) (loop : Loop) (f : GuestFile) :
    Except SyncError Loop :=
  let found := getOrCreateJob configId f.vmid
    ⟨jobName data f.vmid, guestName data f.vmid, some f.storageName⟩ loop
  let id := found.1.1
  let loop := if found.1.2 then { found.2 with created := found.2.created + 1 }
    else { found.2 with updated := found.2.updated + 1 }
  if f.info.ctime = 0 then .ok loop
  else do
    let runDt ← utcfromtimestamp f.info.ctime
    .ok ((loop.modify id (fileRun runDt f.storageName f.info)).addHistory
      ⟨id, runDt, .ok, some f.info.size, none, .file f.info.volid⟩)

/-- A task in a job, unless that has a newer run. -/
def applyTask (run : TaskRun) (job : BackupJob) : BackupJob :=
  if ∀ lastRunAt ∈ job.lastRunAt, lastRunAt ≤ run.runDt then
    { job with
      lastRunAt := some run.runDt
      lastStatus := some run.mappedStatus
      lastError :=
        if run.mappedStatus = .failed then some run.taskStatus
        else if run.mappedStatus = .ok ∨ run.mappedStatus = .running then none
        else job.lastError }
  else job

def syncTask (py : Text.Lower) (configId : ℕ) (data : Snapshot) (loop : Loop) (task : Task) :
    Loop :=
  match taskRun py task with
  | none => loop
  | some run =>
    let found := getOrCreateJob configId run.vmid
      ⟨jobName data run.vmid, guestName data run.vmid, none⟩ loop
    let id := found.1.1
    let loop := if found.1.2 then { found.2 with created := found.2.created + 1 } else found.2
    let loop := loop.modify id (applyTask run)
    if run.mappedStatus = .running then loop
    else loop.addHistory ⟨id, run.runDt, run.mappedStatus, none,
      if run.mappedStatus = .failed then some run.taskStatus else none,
      .task run.node run.user⟩

def startLoop (store : Store) : Loop := ⟨store.jobs, store.nextJobId, store.history, 0, 0, 0⟩

/-- The loops over the files and the tasks. -/
def runLoop (py : Text.Lower) (configId : ℕ) (data : Snapshot) (store : Store) :
    Except SyncError Loop :=
  match data.backups with
  | none => .error .noneHasNoItems
  | some backups => do
    let loop ←
      ((guestLatest backups).map Prod.snd).foldlM (syncFile configId data) (startLoop store)
    .ok (data.tasks.foldl (syncTask py configId data) loop)

/-! ### The sync as events -/

/-- Jobs by their guests, and the marks of history rows. -/
def jobs (configId : ℕ) : GetOrCreate BackupJob ℤ HistoryRow (ℕ × ℕ) where
  id := BackupJob.id
  key := jobKey configId
  mark row := (row.jobId, row.timestamp)

theorem id_setTargetName (name : String) (job : BackupJob) :
    (setTargetName name job).id = job.id := by
  unfold setTargetName
  split_ifs <;> rfl

theorem jobKey_setTargetName (configId : ℕ) (name : String) (job : BackupJob) :
    jobKey configId (setTargetName name job) = jobKey configId job := by
  unfold setTargetName
  split_ifs <;> rfl

theorem id_applyTask (run : TaskRun) (job : BackupJob) : (applyTask run job).id = job.id := by
  unfold applyTask
  split_ifs <;> rfl

theorem jobKey_applyTask (configId : ℕ) (run : TaskRun) (job : BackupJob) :
    jobKey configId (applyTask run job) = jobKey configId job := by
  unfold applyTask
  split_ifs <;> rfl

theorem jobKey_newJob (configId : ℕ) (vmid : ℤ) (defaults : Defaults) (id : ℕ) :
    jobKey configId (newJob configId vmid defaults id) = some vmid :=
  if_pos ⟨rfl, rfl⟩

/-- What a file makes of its job. -/
def applyFile (data : Snapshot) (f : GuestFile) (job : BackupJob) : BackupJob :=
  let job := setTargetName (guestName data f.vmid) job
  if f.info.ctime = 0 then job else fileRun f.info.ctime f.storageName f.info job

/-- A file, as an event of its guest. -/
def fileEvent (configId : ℕ) (data : Snapshot) (f : GuestFile) : (jobs configId).Event where
  key := f.vmid
  create := newJob configId f.vmid
    ⟨jobName data f.vmid, guestName data f.vmid, some f.storageName⟩
  change := applyFile data f
  entry id := if f.info.ctime = 0 then none
    else some ⟨id, f.info.ctime, .ok, some f.info.size, none, .file f.info.volid⟩
  id_create _ := rfl
  key_create := jobKey_newJob configId f.vmid _
  id_change job := by
    unfold applyFile
    dsimp only
    split_ifs <;> exact id_setTargetName _ job
  key_change job := by
    unfold applyFile
    dsimp only
    split_ifs <;> exact jobKey_setTargetName configId _ job

/-- A task, as an event of its guest. -/
def taskEvent (configId : ℕ) (data : Snapshot) (run : TaskRun) : (jobs configId).Event where
  key := run.vmid
  create := newJob configId run.vmid ⟨jobName data run.vmid, guestName data run.vmid, none⟩
  change job := applyTask run (setTargetName (guestName data run.vmid) job)
  entry id := if run.mappedStatus = .running then none
    else some ⟨id, run.runDt, run.mappedStatus, none,
      if run.mappedStatus = .failed then some run.taskStatus else none, .task run.node run.user⟩
  id_create _ := rfl
  key_create := jobKey_newJob configId run.vmid _
  id_change job := (id_applyTask run _).trans (id_setTargetName _ job)
  key_change job := (jobKey_applyTask configId run _).trans (jobKey_setTargetName configId _ job)

def Loop.toState (loop : Loop) : GetOrCreate.State BackupJob HistoryRow :=
  ⟨loop.jobs, loop.nextJobId, loop.history⟩

variable {py : Text.Lower} {configId : ℕ} {data : Snapshot} {store : Store} {loop : Loop}

theorem toState_addHistory (configId : ℕ) (row : HistoryRow) : (loop.addHistory row).toState =
    { loop.toState with log := (jobs configId).addEntry loop.history (some row) } := by
  have hmark : (loop.history.any fun r => r.jobId = row.jobId ∧ r.timestamp = row.timestamp) =
      loop.history.any fun r => (jobs configId).mark r = (jobs configId).mark row := by
    simp [jobs]
  unfold Loop.addHistory GetOrCreate.addEntry
  rw [hmark]
  dsimp only
  split_ifs <;> rfl

/-- Two changes of one job. -/
theorem map_modify_modify (id : ℕ) {f g : BackupJob → BackupJob} (hf : ∀ job, (f job).id = job.id)
    (l : List BackupJob) :
    ((l.map fun job => if job.id = id then f job else job).map
      fun job => if job.id = id then g job else job) =
        l.map fun job => if job.id = id then g (f job) else job := by
  rw [List.map_map]
  refine List.map_congr_left fun job _ => ?_
  dsimp only [Function.comp]
  split_ifs with h hne
  · rfl
  · exact absurd ((hf job).trans h) hne
  · rfl

/-- A change of the job that was just created. -/
theorem map_modify_concat {l : List BackupJob} (job : BackupJob) (hl : ∀ j ∈ l, j.id < job.id)
    (f : BackupJob → BackupJob) :
    ((l ++ [job]).map fun j => if j.id = job.id then f j else j) = l ++ [f job] := by
  rw [List.map_append, List.map_singleton, if_pos rfl]
  congr 1
  refine (List.map_congr_left fun j hj => ?_).trans (List.map_id l)
  exact if_neg (Nat.ne_of_lt (hl j hj))

/-- Find or create a job, and change it. -/
theorem modify_getOrCreateJob (hvalid : (jobs configId).Valid loop.toState)
    (defaults : Defaults) (e : (jobs configId).Event)
    (hcreate : e.create = newJob configId e.key defaults) (f : BackupJob → BackupJob)
    (hchange : ∀ job, e.change job = f (setTargetName defaults.targetName job)) :
    ((getOrCreateJob configId e.key defaults loop).2.modify
        (getOrCreateJob configId e.key defaults loop).1.1 f).jobs =
          ((jobs configId).step loop.toState e).rows ∧
      (getOrCreateJob configId e.key defaults loop).2.nextJobId =
        ((jobs configId).step loop.toState e).next ∧
      (getOrCreateJob configId e.key defaults loop).2.history = loop.history ∧
      ((jobs configId).step loop.toState e).log = (jobs configId).addEntry loop.history
        (e.entry (getOrCreateJob configId e.key defaults loop).1.1) := by
  cases hslot : (jobs configId).slot loop.toState.rows e.key with
  | some job =>
    have hfind : loop.jobs.find? (fun job => jobKey configId job = some e.key) = some job := hslot
    rw [GetOrCreate.step_of_some hslot]
    unfold getOrCreateJob
    rw [hfind]
    refine ⟨?_, rfl, rfl, rfl⟩
    refine (map_modify_modify job.id (id_setTargetName _) loop.jobs).trans ?_
    simp only [← hchange]
    rfl
  | none =>
    have hfind : loop.jobs.find? (fun job => jobKey configId job = some e.key) = none := hslot
    rw [GetOrCreate.step_of_none hslot]
    unfold getOrCreateJob
    rw [hfind]
    refine ⟨?_, rfl, rfl, rfl⟩
    have hnew : setTargetName defaults.targetName
        (newJob configId e.key defaults loop.nextJobId) =
          newJob configId e.key defaults loop.nextJobId := by
      unfold setTargetName
      split_ifs <;> rfl
    have hconcat := map_modify_concat (newJob configId e.key defaults loop.nextJobId) hvalid.lt f
    rw [hcreate, hchange]
    change _ = loop.jobs ++ [f (setTargetName defaults.targetName
      (newJob configId e.key defaults loop.nextJobId))]
    rw [hnew]
    exact hconcat

theorem modify_id (id : ℕ) : (loop.modify id fun job => job) = loop := by
  simp [Loop.modify]

variable (data) in
/-- **A file is an event of its guest.** -/
theorem toState_syncFile (hvalid : (jobs configId).Valid loop.toState) {f : GuestFile}
    (hrange : f.info.ctime ≤ maxTimestamp) :
    ∃ loop', syncFile configId data loop f = .ok loop' ∧
      loop'.toState = (jobs configId).step loop.toState (fileEvent configId data f) := by
  have hutc : utcfromtimestamp f.info.ctime = .ok f.info.ctime := if_pos hrange
  unfold syncFile
  dsimp only
  by_cases hzero : f.info.ctime = 0
  · obtain ⟨hjobs, hnext, hhistory, hlog⟩ := modify_getOrCreateJob hvalid
      ⟨jobName data f.vmid, guestName data f.vmid, some f.storageName⟩
      (fileEvent configId data f) rfl
      (fun job => job) fun job => if_pos hzero
    have hentry : ∀ id, (fileEvent configId data f).entry id = none := fun _ => if_pos hzero
    rw [modify_id] at hjobs
    rw [hentry] at hlog
    refine ⟨_, if_pos hzero, ?_⟩
    split_ifs
    · exact GetOrCreate.State.ext hjobs hnext (hhistory.trans hlog.symm)
    · exact GetOrCreate.State.ext hjobs hnext (hhistory.trans hlog.symm)
  · obtain ⟨hjobs, hnext, hhistory, hlog⟩ := modify_getOrCreateJob hvalid
      ⟨jobName data f.vmid, guestName data f.vmid, some f.storageName⟩
      (fileEvent configId data f) rfl
      (fileRun f.info.ctime f.storageName f.info) fun job => if_neg hzero
    have hentry : ∀ id, (fileEvent configId data f).entry id =
        some ⟨id, f.info.ctime, .ok, some f.info.size, none, .file f.info.volid⟩ :=
      fun _ => if_neg hzero
    rw [← hhistory, hentry] at hlog
    rw [if_neg hzero, hutc]
    refine ⟨_, rfl, ?_⟩
    rw [toState_addHistory configId]
    split_ifs
    · exact GetOrCreate.State.ext hjobs hnext hlog.symm
    · exact GetOrCreate.State.ext hjobs hnext hlog.symm

theorem syncFile_of_lt {f : GuestFile} (hrange : maxTimestamp < f.info.ctime) :
    syncFile configId data loop f = .error (.timestampOutOfRange f.info.ctime) := by
  have hutc : utcfromtimestamp f.info.ctime = .error (.timestampOutOfRange f.info.ctime) :=
    if_neg (Nat.not_le.mpr hrange)
  have hzero : f.info.ctime ≠ 0 := by
    unfold maxTimestamp at hrange
    omega
  unfold syncFile
  dsimp only
  rw [if_neg hzero, hutc]
  rfl

variable (data) in
/-- **A task is an event of its guest.** -/
theorem toState_syncTask (hvalid : (jobs configId).Valid loop.toState) {task : Task}
    {run : TaskRun} (hrun : taskRun py task = some run) :
    (syncTask py configId data loop task).toState =
      (jobs configId).step loop.toState (taskEvent configId data run) := by
  obtain ⟨hjobs, hnext, hhistory, hlog⟩ := modify_getOrCreateJob hvalid
    ⟨jobName data run.vmid, guestName data run.vmid, none⟩ (taskEvent configId data run) rfl
    (applyTask run) fun job => rfl
  unfold syncTask
  rw [hrun]
  dsimp only
  by_cases hrunning : run.mappedStatus = .running
  · have hentry : ∀ id, (taskEvent configId data run).entry id = none := fun _ => if_pos hrunning
    rw [hentry] at hlog
    rw [if_pos hrunning]
    split_ifs
    · exact GetOrCreate.State.ext hjobs hnext (hhistory.trans hlog.symm)
    · exact GetOrCreate.State.ext hjobs hnext (hhistory.trans hlog.symm)
  · have hentry : ∀ id, (taskEvent configId data run).entry id =
        some ⟨id, run.runDt, run.mappedStatus, none,
          if run.mappedStatus = .failed then some run.taskStatus else none,
          .task run.node run.user⟩ := fun _ => if_neg hrunning
    rw [← hhistory, hentry] at hlog
    rw [if_neg hrunning, toState_addHistory configId]
    generalize (if run.mappedStatus = .failed then some run.taskStatus else none) = error at hlog ⊢
    split_ifs
    · exact GetOrCreate.State.ext hjobs hnext hlog.symm
    · exact GetOrCreate.State.ext hjobs hnext hlog.symm

/-! ### A sync as events -/

/-- The files that count, in the order of the loop. -/
def latestFiles (backups : Backups) : List GuestFile := (guestLatest backups).map Prod.snd

/-- The events of a sync. -/
def events (py : Text.Lower) (configId : ℕ) (data : Snapshot) (backups : Backups) :
    List (jobs configId).Event :=
  (latestFiles backups).map (fileEvent configId data) ++
    (data.tasks.filterMap (taskRun py)).map (taskEvent configId data)

def Store.toState (store : Store) : GetOrCreate.State BackupJob HistoryRow :=
  ⟨store.jobs, store.nextJobId, store.history⟩

theorem valid_store (store : Store) (configId : ℕ) : (jobs configId).Valid store.toState :=
  ⟨store.nodup, store.lt⟩

theorem toState_foldl_syncTask (hvalid : (jobs configId).Valid loop.toState) (tasks : List Task) :
    (tasks.foldl (syncTask py configId data) loop).toState =
      (jobs configId).run loop.toState
        ((tasks.filterMap (taskRun py)).map (taskEvent configId data)) := by
  induction tasks generalizing loop with
  | nil => rfl
  | cons task tasks ih =>
    rw [List.foldl_cons]
    cases hrun : taskRun py task with
    | none =>
      have hskip : syncTask py configId data loop task = loop := by
        unfold syncTask
        rw [hrun]
      rw [hskip, List.filterMap_cons_none hrun, ih hvalid]
    | some run =>
      have hstep := toState_syncTask data hvalid hrun
      rw [List.filterMap_cons_some hrun, List.map_cons, ih (hstep ▸ hvalid.step _), hstep]
      rfl

variable (data) in
theorem exists_foldlM_syncFile (hvalid : (jobs configId).Valid loop.toState)
    {files : List GuestFile} (hrange : ∀ f ∈ files, f.info.ctime ≤ maxTimestamp) :
    ∃ loop', files.foldlM (syncFile configId data) loop = .ok loop' ∧
      loop'.toState = (jobs configId).run loop.toState (files.map (fileEvent configId data)) := by
  induction files generalizing loop with
  | nil => exact ⟨loop, rfl, rfl⟩
  | cons f files ih =>
    obtain ⟨hf, hfiles⟩ := List.forall_mem_cons.mp hrange
    obtain ⟨between, hfirst, hbetween⟩ := toState_syncFile data hvalid hf
    obtain ⟨loop', hrest, hloop'⟩ := ih (hbetween ▸ hvalid.step _) hfiles
    refine ⟨loop', Fallible.foldlM_cons_eq_ok.mpr ⟨between, hfirst, hrest⟩, ?_⟩
    rw [hloop', hbetween]
    rfl

theorem range_of_foldlM_syncFile {files : List GuestFile} {loop' : Loop}
    (h : files.foldlM (syncFile configId data) loop = .ok loop') :
    ∀ f ∈ files, f.info.ctime ≤ maxTimestamp := by
  induction files generalizing loop with
  | nil => simp
  | cons f files ih =>
    obtain ⟨between, hfirst, hrest⟩ := Fallible.foldlM_cons_eq_ok.mp h
    refine List.forall_mem_cons.mpr ⟨?_, ih hrest⟩
    by_contra hlt
    rw [syncFile_of_lt (Nat.not_le.mp hlt)] at hfirst
    cases hfirst

/-- The files could be read, and their times are in the range of Python. -/
def Readable (data : Snapshot) (backups : Backups) : Prop :=
  data.backups = some backups ∧ ∀ f ∈ latestFiles backups, f.info.ctime ≤ maxTimestamp

theorem exists_runLoop (py : Text.Lower) (configId : ℕ) (store : Store) {backups : Backups}
    (h : Readable data backups) :
    ∃ loop, runLoop py configId data store = .ok loop ∧
      loop.toState = (jobs configId).run store.toState (events py configId data backups) := by
  obtain ⟨hbackups, hrange⟩ := h
  have hvalid : (jobs configId).Valid (startLoop store).toState := valid_store store configId
  obtain ⟨loop, hfiles, hloop⟩ := exists_foldlM_syncFile data hvalid hrange
  refine ⟨data.tasks.foldl (syncTask py configId data) loop, ?_, ?_⟩
  · unfold runLoop
    rw [hbackups]
    exact Fallible.bind_eq_ok.mpr ⟨loop, hfiles, rfl⟩
  · rw [toState_foldl_syncTask (hloop ▸ hvalid.run _), hloop, events, GetOrCreate.run,
      GetOrCreate.run, GetOrCreate.run, List.foldl_append]
    rfl

theorem readable_of_runLoop (h : runLoop py configId data store = .ok loop) :
    ∃ backups, Readable data backups := by
  unfold runLoop at h
  split at h
  · cases h
  · next backups hbackups =>
    obtain ⟨between, hfiles, -⟩ := Fallible.bind_eq_ok.mp h
    exact ⟨backups, hbackups, range_of_foldlM_syncFile hfiles⟩

theorem valid_of_runLoop (h : runLoop py configId data store = .ok loop) :
    (jobs configId).Valid loop.toState := by
  obtain ⟨backups, hreadable⟩ := readable_of_runLoop h
  obtain ⟨loop', hrun, hstate⟩ := exists_runLoop py configId store hreadable
  obtain rfl := Except.ok.inj (h.symm.trans hrun)
  exact hstate ▸ (valid_store store configId).run _

/-- The rows after a sync, and its counts. -/
structure Synced where
  store : Store
  created : ℕ
  updated : ℕ
  historyAdded : ℕ

/-- `sync_proxmox_backups`. -/
def syncProxmoxBackups (py : Text.Lower) (configId : ℕ) (data : Snapshot) (store : Store) :
    Except SyncError Synced :=
  match h : runLoop py configId data store with
  | .error e => .error e
  | .ok loop =>
    .ok {
      store := {
        jobs := loop.jobs
        nextJobId := loop.nextJobId
        history := loop.history
        nodup := (valid_of_runLoop h).nodup
        lt := (valid_of_runLoop h).lt }
      created := loop.created
      updated := loop.updated
      historyAdded := loop.historyAdded }

/-- **What a sync makes of the rows**, if the files could be read. -/
theorem exists_syncProxmoxBackups (py : Text.Lower) (configId : ℕ) (store : Store)
    {backups : Backups} (h : Readable data backups) :
    ∃ synced, syncProxmoxBackups py configId data store = .ok synced ∧
      synced.store.toState =
        (jobs configId).run store.toState (events py configId data backups) := by
  obtain ⟨loop, hrun, hstate⟩ := exists_runLoop py configId store h
  unfold syncProxmoxBackups
  split
  · next e he =>
    rw [hrun] at he
    cases he
  · next loop' hloop' =>
    obtain rfl := Except.ok.inj (hrun.symm.trans hloop')
    exact ⟨_, rfl, hstate⟩

theorem readable_of_syncProxmoxBackups {synced : Synced}
    (h : syncProxmoxBackups py configId data store = .ok synced) :
    ∃ backups, Readable data backups := by
  unfold syncProxmoxBackups at h
  split at h
  · cases h
  · next loop hloop => exact readable_of_runLoop hloop

end Nodeglow.BackupMonitor
