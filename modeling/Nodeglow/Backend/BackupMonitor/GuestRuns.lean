import Nodeglow.Backend.BackupMonitor.ProxmoxBackups
import Nodeglow.Foundation.Newest

/-!
# The job of a guest

The events of a sync that are of one guest change its job in turn: first the files that count, then
the tasks. Of the files the last one with a time is written, whatever the job had; the tasks are
compared with what the job has. So the job has the newest of these runs, and the same sync again
leaves it as it is.

## Main results

* `map_ctime_guestLatestFiles` — the files that count.
* `register_changeAll` — the time and the status in a job after a sync.
* `changeAll_changeAll` — the same sync again.

Source: `backend/services/backup_monitor.py`, lines 22–251.
-/

namespace Nodeglow.BackupMonitor

variable {py : Text.Lower} {configId : ℕ} {data : Snapshot} {backups : Backups} {store : Store}
  {v : ℤ} {job : BackupJob}

/-! ### The runs in a snapshot -/

/-- The runs of a guest that left a file. -/
def fileRuns (backups : Backups) (v : ℤ) : List (ℕ × Option RunStatus) :=
  backups.storages.flatMap fun s => s.2.filterMap fun f =>
    if f.vmid = some v ∧ f.ctime ≠ 0 then some (f.ctime, some .ok) else none

/-- The backup tasks of a guest. -/
def guestTasks (py : Text.Lower) (data : Snapshot) (v : ℤ) : List TaskRun :=
  (data.tasks.filterMap (taskRun py)).filter fun run => run.vmid = v

def taskRuns (py : Text.Lower) (data : Snapshot) (v : ℤ) : List (ℕ × Option RunStatus) :=
  (guestTasks py data v).map fun run => (run.runDt, some run.mappedStatus)

/-- The newest file of a guest in a storage. -/
def newestIn (v : ℤ) (files : List BackupFile) : Option ℕ :=
  ((files.filter fun f => f.vmid = some v).map BackupFile.ctime).max?

/-- The newest file of a guest in the last storage that has one with a time. -/
def lastNewest (backups : Backups) (v : ℤ) : Option ℕ :=
  ((backups.storages.filterMap fun s => newestIn v s.2).filter (· ≠ 0)).getLast?

theorem mem_fileRuns {run : ℕ × Option RunStatus} : run ∈ fileRuns backups v ↔
    run.2 = some .ok ∧ run.1 ≠ 0 ∧
      ∃ s ∈ backups.storages, ∃ f ∈ s.2, f.vmid = some v ∧ f.ctime = run.1 := by
  obtain ⟨t, status⟩ := run
  simp only [fileRuns, List.mem_flatMap, List.mem_filterMap, Option.ite_none_right_eq_some,
    Option.some.injEq, Prod.mk.injEq]
  constructor
  · rintro ⟨s, hs, f, hf, ⟨hvmid, hne⟩, rfl, rfl⟩
    exact ⟨rfl, hne, s, hs, f, hf, hvmid, rfl⟩
  · rintro ⟨rfl, hne, s, hs, f, hf, hvmid, rfl⟩
    exact ⟨s, hs, f, hf, ⟨hvmid, hne⟩, rfl, rfl⟩

theorem newestIn_eq_some_iff {files : List BackupFile} {t : ℕ} : newestIn v files = some t ↔
    (∃ f ∈ files, f.vmid = some v ∧ f.ctime = t) ∧
      ∀ f ∈ files, f.vmid = some v → f.ctime ≤ t := by
  rw [newestIn, List.max?_eq_some_iff, List.forall_mem_map]
  simp [and_assoc]

theorem exists_newestIn {files : List BackupFile} {f : BackupFile} (hf : f ∈ files)
    (hvmid : f.vmid = some v) : ∃ t, newestIn v files = some t ∧ f.ctime ≤ t := by
  cases h : newestIn v files with
  | none =>
    rw [newestIn, List.max?_eq_none_iff, List.map_eq_nil_iff, List.filter_eq_nil_iff] at h
    exact absurd (by simpa using hvmid) (h f hf)
  | some t => exact ⟨t, rfl, (newestIn_eq_some_iff.mp h).2 f hf hvmid⟩

/-- The last newest file is a run of the guest. -/
theorem mem_fileRuns_of_lastNewest {t : ℕ} (h : lastNewest backups v = some t) :
    (t, some .ok) ∈ fileRuns backups v := by
  obtain ⟨hmem, hne⟩ := List.mem_filter.mp (List.mem_of_getLast? h)
  obtain ⟨s, hs, hnewest⟩ := List.mem_filterMap.mp hmem
  obtain ⟨⟨f, hf, hvmid, htime⟩, -⟩ := newestIn_eq_some_iff.mp hnewest
  exact mem_fileRuns.mpr ⟨rfl, by simpa using hne, s, hs, f, hf, hvmid, htime⟩

/-- Where no newest file counts, the guest has none with a time. -/
theorem fileRuns_eq_nil_of_lastNewest (h : lastNewest backups v = none) :
    fileRuns backups v = [] := by
  rw [lastNewest, List.getLast?_eq_none_iff, List.filter_eq_nil_iff] at h
  refine List.eq_nil_iff_forall_not_mem.mpr fun run hrun => ?_
  obtain ⟨-, hne, s, hs, f, hf, hvmid, htime⟩ := mem_fileRuns.mp hrun
  obtain ⟨t, hnewest, hle⟩ := exists_newestIn hf hvmid
  have hzero : t = 0 := by simpa using h t (List.mem_filterMap.mpr ⟨s, hs, hnewest⟩)
  omega

/-! ### The files that count -/

/-- The files of a guest that count, in the order of the loop. -/
def guestLatestFiles (backups : Backups) (v : ℤ) : List GuestFile :=
  (latestFiles backups).filter fun f => f.vmid = v

theorem mem_guestFiles {storageName : String} {files : List BackupFile} {f : GuestFile} :
    f ∈ guestFiles storageName files ↔
      f.storageName = storageName ∧ f.info ∈ files ∧ f.info.vmid = some f.vmid := by
  obtain ⟨vmid, name, info⟩ := f
  simp only [guestFiles, List.mem_filterMap, Option.map_eq_some_iff, GuestFile.mk.injEq]
  constructor
  · rintro ⟨g, hg, w, hw, rfl, rfl, rfl⟩
    exact ⟨rfl, hg, hw⟩
  · rintro ⟨rfl, hinfo, hvmid⟩
    exact ⟨info, hinfo, vmid, hvmid, rfl, rfl, rfl⟩

/-- The newest file of a guest in a storage is the one that counts. -/
theorem map_bestByKey_guestFiles (s : String × List BackupFile) :
    (bestByKey (fun f => (f.vmid, f.storageName)) (fun f => f.info.ctime)
      ((guestFiles s.1 s.2).filter fun f => f.vmid = v)).map (fun e => e.2.info.ctime) =
        (newestIn v s.2).toList := by
  have hmem : ∀ f, f ∈ (guestFiles s.1 s.2).filter (fun f => f.vmid = v) ↔
      f.storageName = s.1 ∧ f.info ∈ s.2 ∧ f.info.vmid = some v ∧ f.vmid = v := by
    intro f
    rw [List.mem_filter, mem_guestFiles, decide_eq_true_eq]
    constructor
    · rintro ⟨⟨hname, hinfo, hvmid⟩, rfl⟩
      exact ⟨hname, hinfo, hvmid, rfl⟩
    · rintro ⟨hname, hinfo, hvmid, rfl⟩
      exact ⟨⟨hname, hinfo, hvmid⟩, rfl⟩
  cases hnewest : newestIn v s.2 with
  | none =>
    have hnil : (guestFiles s.1 s.2).filter (fun f => f.vmid = v) = [] := by
      refine List.eq_nil_iff_forall_not_mem.mpr fun f hf => ?_
      obtain ⟨-, hinfo, hvmid, -⟩ := (hmem f).mp hf
      obtain ⟨t, ht, -⟩ := exists_newestIn hinfo hvmid
      rw [hnewest] at ht
      cases ht
    rw [hnil]
    rfl
  | some t =>
    obtain ⟨⟨info, hinfo, hvmid, rfl⟩, hmax⟩ := newestIn_eq_some_iff.mp hnewest
    have hin : (⟨v, s.1, info⟩ : GuestFile) ∈ (guestFiles s.1 s.2).filter fun f => f.vmid = v :=
      (hmem _).mpr ⟨rfl, hinfo, hvmid, rfl⟩
    have hkey : ∀ f ∈ (guestFiles s.1 s.2).filter (fun f => f.vmid = v),
        (f.vmid, f.storageName) = (v, s.1) := by
      intro f hf
      obtain ⟨hname, -, -, hv⟩ := (hmem f).mp hf
      rw [hname, hv]
    obtain ⟨best, hbest, heq, hscore⟩ := exists_bestByKey_of_forall
      (fun f : GuestFile => f.info.ctime) (List.ne_nil_of_mem hin) hkey
    obtain ⟨-, hbestInfo, hbestVmid, -⟩ := (hmem best).mp hbest
    have htime : best.info.ctime = info.ctime :=
      Nat.le_antisymm (hmax _ hbestInfo hbestVmid) (hscore _ hin)
    rw [heq, List.map_singleton, htime]
    rfl

/-- The files that count of a guest have the newest times in its storages. -/
theorem map_ctime_guestLatestFiles (backups : Backups) (v : ℤ) :
    (guestLatestFiles backups v).map (fun f => f.info.ctime) =
      backups.storages.filterMap fun s => newestIn v s.2 := by
  have hfilter : guestLatestFiles backups v = (bestByKey (fun f => (f.vmid, f.storageName))
      (fun f => f.info.ctime) (backups.storages.flatMap fun s =>
        (guestFiles s.1 s.2).filter fun f => f.vmid = v)).map Prod.snd := by
    rw [guestLatestFiles, latestFiles, List.filter_map, ← List.filter_flatMap]
    congr 1
    rw [← filter_bestByKey (fun k : ℤ × String => decide (k.1 = v))]
    refine List.filter_congr fun e he => ?_
    rw [← (mem_bestByKey he).2]
    rfl
  have hgroups : backups.storages.Pairwise fun s s' =>
      ∀ f ∈ (guestFiles s.1 s.2).filter (fun f => f.vmid = v),
        ∀ f' ∈ (guestFiles s'.1 s'.2).filter (fun f => f.vmid = v),
          (f.vmid, f.storageName) ≠ (f'.vmid, f'.storageName) := by
    refine (List.pairwise_map.mp backups.nodup).imp fun hne f hf f' hf' heq => hne ?_
    rw [← (mem_guestFiles.mp (List.mem_filter.mp hf).1).1,
      ← (mem_guestFiles.mp (List.mem_filter.mp hf').1).1]
    exact congrArg Prod.snd heq
  rw [hfilter, bestByKey_flatMap hgroups, List.map_map, List.map_flatMap,
    List.filterMap_eq_flatMap_toList]
  exact List.flatMap_congr fun s _ => map_bestByKey_guestFiles s

theorem range_iff : (∀ f ∈ latestFiles backups, f.info.ctime ≤ maxTimestamp) ↔
    ∀ s ∈ backups.storages, ∀ f ∈ s.2, f.vmid ≠ none → f.ctime ≤ maxTimestamp := by
  constructor
  · intro h s hs f hf hne
    obtain ⟨v, hvmid⟩ := Option.ne_none_iff_exists'.mp hne
    obtain ⟨t, hnewest, hle⟩ := exists_newestIn hf hvmid
    have hmem : t ∈ (guestLatestFiles backups v).map fun f => f.info.ctime := by
      rw [map_ctime_guestLatestFiles]
      exact List.mem_filterMap.mpr ⟨s, hs, hnewest⟩
    obtain ⟨g, hg, rfl⟩ := List.mem_map.mp hmem
    exact hle.trans (h g (List.mem_filter.mp hg).1)
  · intro h f hf
    obtain ⟨e, he, rfl⟩ := List.mem_map.mp hf
    obtain ⟨s, hs, hmem⟩ := List.mem_flatMap.mp (mem_bestByKey he).1
    obtain ⟨-, hinfo, hvmid⟩ := mem_guestFiles.mp hmem
    exact h s hs _ hinfo (by simp [hvmid])

/-! ### The job of a guest -/

/-- The time and the status of the last run. -/
def register (job : BackupJob) : Option ℕ × Option RunStatus := (job.lastRunAt, job.lastStatus)

/-- The task as an event of its guest. -/
def applyGuestTask (data : Snapshot) (job : BackupJob) (run : TaskRun) : BackupJob :=
  applyTask run (setTargetName (guestName data run.vmid) job)

/-- The events of a guest: first the files, then the tasks. -/
theorem ofKey_events (py : Text.Lower) (configId : ℕ) (data : Snapshot) (backups : Backups)
    (v : ℤ) :
    GetOrCreate.ofKey (events py configId data backups) v =
      (guestLatestFiles backups v).map (fileEvent configId data) ++
        (guestTasks py data v).map (taskEvent configId data) := by
  rw [GetOrCreate.ofKey, events, List.filter_append, List.filter_map, List.filter_map]
  rfl

/-- What the events of a guest make of its job. -/
theorem changeAll_events (job : BackupJob) :
    GetOrCreate.changeAll (events py configId data backups) v job =
      (guestTasks py data v).foldl (applyGuestTask data)
        ((guestLatestFiles backups v).foldl (fun job f => applyFile data f job) job) := by
  rw [GetOrCreate.changeAll, ofKey_events, List.foldl_append, List.foldl_map, List.foldl_map]
  rfl

theorem register_setTargetName (name : String) (job : BackupJob) :
    register (setTargetName name job) = register job := by
  unfold setTargetName
  split_ifs <;> rfl

theorem register_applyFile (f : GuestFile) (job : BackupJob) :
    register (applyFile data f job) =
      if f.info.ctime = 0 then register job else (some f.info.ctime, some .ok) := by
  unfold applyFile
  dsimp only
  split_ifs
  · exact register_setTargetName _ job
  · rfl

/-- Of the files, the last one with a time counts. -/
theorem register_foldl_applyFile (files : List GuestFile) (job : BackupJob) :
    register (files.foldl (fun job f => applyFile data f job) job) =
      (((files.map fun f => f.info.ctime).filter (· ≠ 0)).getLast?).elim (register job)
        fun t => (some t, some .ok) := by
  induction files using List.reverseRecOn with
  | nil => rfl
  | append_singleton files f ih =>
    rw [List.foldl_append, List.foldl_cons, List.foldl_nil, register_applyFile, List.map_append,
      List.filter_append]
    split_ifs with hzero
    · simp [hzero, ih]
    · simp [hzero]

theorem register_applyTask (run : TaskRun) (job : BackupJob) : register (applyTask run job) =
    Newest.record (register job) (run.runDt, some (some run.mappedStatus)) := by
  unfold applyTask Newest.record
  rw [apply_ite register]
  rfl

theorem register_foldl_applyGuestTask (tasks : List TaskRun) (job : BackupJob) :
    register (tasks.foldl (applyGuestTask data) job) = Newest.recordAll (register job)
      (tasks.map fun run => (run.runDt, some (some run.mappedStatus))) := by
  induction tasks generalizing job with
  | nil => rfl
  | cons run tasks ih =>
    rw [List.foldl_cons, ih, applyGuestTask, register_applyTask, register_setTargetName]
    rfl

/-- What the job of a guest has before the tasks. -/
def afterFiles (backups : Backups) (v : ℤ) (job : BackupJob) : Option ℕ × Option RunStatus :=
  (lastNewest backups v).elim (register job) fun t => (some t, some .ok)

/-- **The time and the status in a job after a sync.** -/
theorem register_changeAll (job : BackupJob) :
    register (GetOrCreate.changeAll (events py configId data backups) v job) =
      Newest.recordAll (afterFiles backups v job)
        ((taskRuns py data v).map fun run => (run.1, some run.2)) := by
  rw [changeAll_events, register_foldl_applyGuestTask, register_foldl_applyFile,
    map_ctime_guestLatestFiles, taskRuns, List.map_map]
  rfl

/-! ### The same sync again -/

/-- A job has the name of its guest. -/
def Settled (name : String) (job : BackupJob) : Prop := name = "" ∨ job.targetName = name

theorem setTargetName_of_settled {name : String} (h : Settled name job) :
    setTargetName name job = job := by
  unfold setTargetName
  split_ifs with hne
  · rw [← h.resolve_left hne]
  · rfl

theorem settled_setTargetName (name : String) (job : BackupJob) :
    Settled name (setTargetName name job) := by
  unfold setTargetName
  split_ifs with hne
  · exact .inr rfl
  · exact .inl (not_not.mp hne)

/-- What a task makes of the error: some leave it. -/
def errorRecord (run : TaskRun) : ℕ × Option (Option String) :=
  (run.runDt,
    if run.mappedStatus = .failed then some (some run.taskStatus)
    else if run.mappedStatus = .ok ∨ run.mappedStatus = .running then some none
    else none)

def statusRecord (run : TaskRun) : ℕ × Option (Option RunStatus) :=
  (run.runDt, some (some run.mappedStatus))

/-- What tasks make of a job with the name of its guest. -/
def writeRuns (tasks : List TaskRun) (job : BackupJob) : BackupJob :=
  { job with
    lastRunAt := (Newest.recordAll (register job) (tasks.map statusRecord)).1
    lastStatus := (Newest.recordAll (register job) (tasks.map statusRecord)).2
    lastError :=
      (Newest.recordAll (job.lastRunAt, job.lastError) (tasks.map errorRecord)).2 }

theorem register_writeRuns (tasks : List TaskRun) (job : BackupJob) :
    register (writeRuns tasks job) =
      Newest.recordAll (register job) (tasks.map statusRecord) := rfl

theorem error_writeRuns (tasks : List TaskRun) (job : BackupJob) :
    ((writeRuns tasks job).lastRunAt, (writeRuns tasks job).lastError) =
      Newest.recordAll (job.lastRunAt, job.lastError) (tasks.map errorRecord) := by
  refine Prod.ext (Newest.time_congr rfl ?_) rfl
  rw [List.map_map, List.map_map]
  rfl

theorem writeRuns_append (tasks tasks' : List TaskRun) (job : BackupJob) :
    writeRuns tasks' (writeRuns tasks job) = writeRuns (tasks ++ tasks') job := by
  have hstatus : Newest.recordAll (register (writeRuns tasks job)) (tasks'.map statusRecord) =
      Newest.recordAll (register job) ((tasks ++ tasks').map statusRecord) := by
    rw [register_writeRuns, List.map_append, Newest.recordAll_append]
  have herror : Newest.recordAll ((writeRuns tasks job).lastRunAt, (writeRuns tasks job).lastError)
      (tasks'.map errorRecord) =
        Newest.recordAll (job.lastRunAt, job.lastError) ((tasks ++ tasks').map errorRecord) := by
    rw [error_writeRuns, List.map_append, Newest.recordAll_append]
  rw [writeRuns, hstatus, herror]
  rfl

theorem writeRuns_writeRuns (tasks : List TaskRun) (job : BackupJob) :
    writeRuns tasks (writeRuns tasks job) = writeRuns tasks job := by
  have hstatus : Newest.recordAll (register (writeRuns tasks job)) (tasks.map statusRecord) =
      Newest.recordAll (register job) (tasks.map statusRecord) :=
    Newest.recordAll_recordAll _ _
  have herror : Newest.recordAll ((writeRuns tasks job).lastRunAt, (writeRuns tasks job).lastError)
      (tasks.map errorRecord) =
        Newest.recordAll (job.lastRunAt, job.lastError) (tasks.map errorRecord) := by
    rw [error_writeRuns, Newest.recordAll_recordAll]
  rw [writeRuns, hstatus, herror]
  rfl

theorem applyTask_eq_writeRuns (run : TaskRun) (job : BackupJob) :
    applyTask run job = writeRuns [run] job := by
  have hstatus : Newest.recordAll (register job) ([run].map statusRecord) =
      Newest.record (register job) (statusRecord run) := rfl
  have herror : Newest.recordAll (job.lastRunAt, job.lastError) ([run].map errorRecord) =
      Newest.record (job.lastRunAt, job.lastError) (errorRecord run) := rfl
  rw [writeRuns, hstatus, herror]
  by_cases h : ∀ t ∈ job.lastRunAt, t ≤ run.runDt
  · have herror' : (errorRecord run).2.getD job.lastError =
        if run.mappedStatus = .failed then some run.taskStatus
        else if run.mappedStatus = .ok ∨ run.mappedStatus = .running then none
        else job.lastError := by
      unfold errorRecord
      dsimp only
      split_ifs <;> rfl
    rw [applyTask, if_pos h, Newest.record_of_le (w := statusRecord run) h,
      Newest.record_of_le (w := errorRecord run) h, herror']
    rfl
  · have hnewer : Newest.record (register job) (statusRecord run) = register job := if_neg h
    have hnewer' : Newest.record (job.lastRunAt, job.lastError) (errorRecord run) =
        (job.lastRunAt, job.lastError) := if_neg h
    rw [applyTask, if_neg h, hnewer, hnewer']
    rfl

theorem foldl_applyGuestTask {tasks : List TaskRun} (hvmid : ∀ run ∈ tasks, run.vmid = v)
    (h : Settled (guestName data v) job) :
    tasks.foldl (applyGuestTask data) job = writeRuns tasks job := by
  induction tasks generalizing job with
  | nil => rfl
  | cons run tasks ih =>
    obtain ⟨hrun, htasks⟩ := List.forall_mem_cons.mp hvmid
    have hfirst : applyGuestTask data job run = writeRuns [run] job := by
      rw [applyGuestTask, hrun, setTargetName_of_settled h, applyTask_eq_writeRuns]
    have hnext : Settled (guestName data v) (writeRuns [run] job) := h
    rw [List.foldl_cons, hfirst, ih htasks hnext, writeRuns_append, List.singleton_append]

/-- What files make of a job with the name of its guest: the last one with a time counts. -/
def writeFile (files : List GuestFile) (job : BackupJob) : BackupJob :=
  ((files.filter fun f => f.info.ctime ≠ 0).getLast?).elim job
    fun f => fileRun f.info.ctime f.storageName f.info job

theorem foldl_applyFile {files : List GuestFile} (hvmid : ∀ f ∈ files, f.vmid = v)
    (h : Settled (guestName data v) job) :
    files.foldl (fun job f => applyFile data f job) job = writeFile files job := by
  induction files using List.reverseRecOn with
  | nil => rfl
  | append_singleton files f ih =>
    have hfiles : ∀ f ∈ files, f.vmid = v := fun f hf => hvmid f (List.mem_append_left _ hf)
    have hsettled : Settled (guestName data v) (writeFile files job) := by
      unfold writeFile
      cases (files.filter fun f => f.info.ctime ≠ 0).getLast? with
      | none => exact h
      | some f => exact h
    have hf : f.vmid = v := hvmid f (by simp)
    rw [List.foldl_append, List.foldl_cons, List.foldl_nil, ih hfiles, applyFile, hf,
      setTargetName_of_settled hsettled]
    unfold writeFile
    rw [List.filter_append]
    split_ifs with hzero
    · simp [hzero]
    · simp only [ne_eq, hzero, not_false_eq_true, decide_true, List.filter_cons_of_pos,
        List.filter_nil, List.getLast?_append, List.getLast?_singleton, Option.some_or,
        Option.elim_some]
      cases (files.filter fun f => ¬f.info.ctime = 0).getLast? with
      | none => rfl
      | some g => rfl

theorem vmid_guestTasks : ∀ run ∈ guestTasks py data v, run.vmid = v := fun run hrun => by
  simpa using (List.mem_filter.mp hrun).2

theorem vmid_guestLatestFiles : ∀ f ∈ guestLatestFiles backups v, f.vmid = v := fun f hf => by
  simpa using (List.mem_filter.mp hf).2

theorem settled_writeFile {name : String} (files : List GuestFile) (h : Settled name job) :
    Settled name (writeFile files job) := by
  unfold writeFile
  cases (files.filter fun f => f.info.ctime ≠ 0).getLast? with
  | none => exact h
  | some f => exact h

theorem changeAll_of_settled (h : Settled (guestName data v) job) :
    GetOrCreate.changeAll (events py configId data backups) v job =
      writeRuns (guestTasks py data v) (writeFile (guestLatestFiles backups v) job) := by
  rw [changeAll_events, foldl_applyFile vmid_guestLatestFiles h,
    foldl_applyGuestTask vmid_guestTasks (settled_writeFile _ h)]

/-- The first event gives the job the name of its guest. -/
theorem changeAll_setTargetName
    (hne : guestLatestFiles backups v ≠ [] ∨ guestTasks py data v ≠ []) (job : BackupJob) :
    GetOrCreate.changeAll (events py configId data backups) v job =
      GetOrCreate.changeAll (events py configId data backups) v
        (setTargetName (guestName data v) job) := by
  have hsettled := setTargetName_of_settled (settled_setTargetName (guestName data v) job)
  rw [changeAll_events, changeAll_events]
  cases hfiles : guestLatestFiles backups v with
  | cons f files =>
    have hf : f.vmid = v := vmid_guestLatestFiles f (hfiles ▸ List.mem_cons_self)
    have hfirst : applyFile data f job =
        applyFile data f (setTargetName (guestName data v) job) := by
      rw [applyFile, applyFile, hf, hsettled]
    rw [List.foldl_cons, List.foldl_cons, hfirst]
  | nil =>
    cases htasks : guestTasks py data v with
    | nil => simp [hfiles, htasks] at hne
    | cons run tasks =>
      have hrun : run.vmid = v := vmid_guestTasks run (htasks ▸ List.mem_cons_self)
      have hfirst : applyGuestTask data job run =
          applyGuestTask data (setTargetName (guestName data v) job) run := by
        rw [applyGuestTask, applyGuestTask, hrun, hsettled]
      rw [List.foldl_nil, List.foldl_nil, List.foldl_cons, List.foldl_cons, hfirst]

/-- A file that counts takes the place of what tasks have written. -/
theorem writeFile_writeRuns (tasks : List TaskRun) (files : List GuestFile) (job : BackupJob) :
    writeRuns tasks (writeFile files (writeRuns tasks (writeFile files job))) =
      writeRuns tasks (writeFile files job) := by
  unfold writeFile
  cases (files.filter fun f => f.info.ctime ≠ 0).getLast? with
  | none => exact writeRuns_writeRuns tasks job
  | some f => rfl

/-- **The same sync again** leaves every job. -/
theorem changeAll_changeAll (v : ℤ) (job : BackupJob) :
    GetOrCreate.changeAll (events py configId data backups) v
      (GetOrCreate.changeAll (events py configId data backups) v job) =
        GetOrCreate.changeAll (events py configId data backups) v job := by
  by_cases hne : guestLatestFiles backups v ≠ [] ∨ guestTasks py data v ≠ []
  · have hsettled := settled_setTargetName (guestName data v) job
    rw [changeAll_setTargetName hne job, changeAll_of_settled hsettled]
    have hagain : Settled (guestName data v) (writeRuns (guestTasks py data v)
        (writeFile (guestLatestFiles backups v) (setTargetName (guestName data v) job))) :=
      settled_writeFile (guestLatestFiles backups v) hsettled
    rw [changeAll_of_settled hagain, writeFile_writeRuns]
  · obtain ⟨hfiles, htasks⟩ := not_or.mp hne
    rw [changeAll_events, changeAll_events, not_not.mp hfiles, not_not.mp htasks]
    rfl

end Nodeglow.BackupMonitor
