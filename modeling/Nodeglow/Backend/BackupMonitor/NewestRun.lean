import Nodeglow.Backend.BackupMonitor.GuestRuns

/-!
# Jobs and their newest runs

A job should have the time and the status of the newest run of its guest (`FollowsRuns`). The tasks
of a snapshot are compared with what the job has; the files are not: the newest file in the last
storage that has one takes the place of whatever the job had. So an older file hides a newer one in
another storage, and a newer run of an earlier sync that has dropped out of the tasks
(`not_followsRuns`). And where the files could not be read, a sync only raises.

Of several jobs of a guest the first one is kept up.

## Main results

* `isNewest_changeAll_iff` — when the job of a guest has its newest run.
* `followsRuns_iff` — exactly when jobs follow their newest runs.

Source: `backend/services/backup_monitor.py`, lines 22–251; `backend/integrations/proxmox.py`, lines
541–551.
-/

namespace Nodeglow.BackupMonitor

variable {py : Text.Lower} {configId : ℕ} {data : Snapshot} {backups : Backups} {store : Store}
  {v : ℤ} {job old : BackupJob}

/-! ### Jobs that follow their runs -/

/-- The runs of a guest in a snapshot. -/
def runs (py : Text.Lower) (data : Snapshot) (v : ℤ) : List (ℕ × Option RunStatus) :=
  data.backups.elim [] (fun backups => fileRuns backups v) ++ taskRuns py data v

/-- The runs of the guest of a job. -/
def jobRuns (py : Text.Lower) (configId : ℕ) (data : Snapshot) (job : BackupJob) :
    List (ℕ × Option RunStatus) :=
  (jobKey configId job).elim [] (runs py data)

/-- The run that a job had before. -/
def previous (store : Store) (job : BackupJob) : List (ℕ × Option RunStatus) :=
  (store.jobs.find? fun old => old.id = job.id).elim [] fun old => Newest.entries (register old)

/-- The sync returns, every job has the newest of the run that it had and the runs of its guest, and
the same sync again changes no job and adds no history row. -/
def FollowsRuns (py : Text.Lower) (configId : ℕ) (data : Snapshot) (store : Store) : Prop :=
  ∃ synced, syncProxmoxBackups py configId data store = .ok synced ∧
    (∀ job ∈ synced.store.jobs, Newest.IsNewest
      (previous store job ++ jobRuns py configId data job) (register job)) ∧
    ∃ again, syncProxmoxBackups py configId data synced.store = .ok again ∧
      again.store.jobs = synced.store.jobs ∧ again.store.history = synced.store.history

/-- The run that the job of a guest has; of several jobs, the first one. -/
def guestPrevious (configId : ℕ) (store : Store) (v : ℤ) : List (ℕ × Option RunStatus) :=
  ((jobs configId).slot store.jobs v).elim [] fun old => Newest.entries (register old)

/-- The times of the files are in the range of Python; where the last storage with a file of a guest
decides, its newest file or a task is as new as every file of the guest and the run that its job
had; and a further job of a guest has as new a run as every one in the snapshot. -/
structure LastIsNewest (py : Text.Lower) (configId : ℕ) (data : Snapshot) (store : Store)
    (backups : Backups) : Prop where
  inRange : ∀ s ∈ backups.storages, ∀ f ∈ s.2, f.vmid ≠ none → f.ctime ≤ maxTimestamp
  newest : ∀ v t, lastNewest backups v = some t →
    ∀ run ∈ guestPrevious configId store v ++ fileRuns backups v,
      run.1 ≤ t ∨ ∃ task ∈ taskRuns py data v, run.1 ≤ task.1
  spare : ∀ job ∈ store.jobs, ∀ v, jobKey configId job = some v →
    (jobs configId).slot store.jobs v ≠ some job →
      ∀ run ∈ runs py data v, ∃ t ∈ job.lastRunAt, run.1 ≤ t

/-! ### One job -/

/-- **When the job of a guest has its newest run**: where a file is written, nothing but a task is
newer. -/
theorem isNewest_changeAll_iff (py : Text.Lower) (configId : ℕ) (data : Snapshot)
    (backups : Backups) (v : ℤ) (job : BackupJob) : Newest.IsNewest
    (Newest.entries (register job) ++ (fileRuns backups v ++ taskRuns py data v))
      (register (GetOrCreate.changeAll (events py configId data backups) v job)) ↔
    ∀ t, lastNewest backups v = some t →
      ∀ run ∈ Newest.entries (register job) ++ fileRuns backups v,
        run.1 ≤ t ∨ ∃ task ∈ taskRuns py data v, run.1 ≤ task.1 := by
  have hnewest := Newest.isNewest_recordAll (afterFiles backups v job) (taskRuns py data v)
  rw [register_changeAll]
  cases hlast : lastNewest backups v with
  | none =>
    have hafter : afterFiles backups v job = register job := by
      rw [afterFiles, hlast]
      rfl
    rw [fileRuns_eq_nil_of_lastNewest hlast, List.nil_append]
    rw [hafter] at hnewest ⊢
    exact iff_of_true hnewest (by simp)
  | some t =>
    have hafter : Newest.entries (afterFiles backups v job) = [(t, some .ok)] := by
      rw [afterFiles, hlast]
      rfl
    rw [hafter] at hnewest
    have hsub : [(t, some RunStatus.ok)] ++ taskRuns py data v ⊆
        Newest.entries (register job) ++ (fileRuns backups v ++ taskRuns py data v) := by
      intro run hrun
      rcases List.mem_append.mp hrun with hrun | hrun
      · rw [List.mem_singleton.mp hrun]
        simp [mem_fileRuns_of_lastNewest hlast]
      · simp [hrun]
    rw [Newest.isNewest_iff_of_subset hnewest hsub, ← List.append_assoc, List.forall_mem_append]
    simp only [Option.some.injEq, forall_eq', List.mem_append, List.mem_singleton, or_and_right,
      exists_or, exists_eq_left]
    exact and_iff_left fun run hrun => .inr ⟨run, hrun, le_rfl⟩

theorem previous_of_mem (hold : old ∈ store.jobs) (hid : job.id = old.id) :
    previous store job = Newest.entries (register old) := by
  have hfind : store.jobs.find? (fun old => old.id = job.id) = some old := by
    cases h : store.jobs.find? fun old => old.id = job.id with
    | none => exact absurd hid.symm (by simpa using List.find?_eq_none.mp h old hold)
    | some old' =>
      have hid' : old'.id = job.id := by simpa using List.find?_some h
      have heq := (valid_store store 0).eq_of_id (List.mem_of_find?_eq_some h) hold
        (hid'.trans hid)
      rw [heq]
  rw [previous, hfind]
  rfl

theorem previous_of_le (h : store.nextJobId ≤ job.id) : previous store job = [] := by
  have hfind : store.jobs.find? (fun old => old.id = job.id) = none := by
    refine List.find?_eq_none.mpr fun old hold => ?_
    have hlt := store.lt old hold
    rw [decide_eq_true_eq]
    omega
  rw [previous, hfind]
  rfl

theorem jobRuns_of_jobKey (hbackups : data.backups = some backups)
    (h : jobKey configId job = some v) :
    jobRuns py configId data job = fileRuns backups v ++ taskRuns py data v := by
  rw [jobRuns, h, Option.elim_some, runs, hbackups]
  rfl

/-- A job that is created has no run. -/
theorem entries_create {e : (jobs configId).Event} (he : e ∈ events py configId data backups)
    (id : ℕ) : Newest.entries (register (e.create id)) = [] := by
  rcases List.mem_append.mp he with he | he
  · obtain ⟨f, -, rfl⟩ := List.mem_map.mp he
    rfl
  · obtain ⟨run, -, rfl⟩ := List.mem_map.mp he
    rfl

/-! ### A sync -/

/-- The jobs of guests after a sync. -/
theorem slot_cases (py : Text.Lower) (configId : ℕ) (data : Snapshot) (backups : Backups)
    (store : Store) (v : ℤ) :
    (∃ old, (jobs configId).slot store.jobs v = some old ∧
      (jobs configId).slot
        ((jobs configId).run store.toState (events py configId data backups)).rows v =
          some (GetOrCreate.changeAll (events py configId data backups) v old)) ∨
    ((jobs configId).slot store.jobs v = none ∧
      GetOrCreate.ofKey (events py configId data backups) v = [] ∧
      (jobs configId).slot
        ((jobs configId).run store.toState (events py configId data backups)).rows v = none) ∨
    ∃ new, (jobs configId).slot store.jobs v = none ∧ store.nextJobId ≤ new.id ∧
      Newest.entries (register new) = [] ∧
      (jobs configId).slot
        ((jobs configId).run store.toState (events py configId data backups)).rows v =
          some (GetOrCreate.changeAll (events py configId data backups) v new) := by
  have hvalid := valid_store store configId
  cases hslot : (jobs configId).slot store.jobs v with
  | some old =>
    exact .inl ⟨old, rfl, GetOrCreate.slot_run_of_some hvalid hslot⟩
  | none =>
    rcases GetOrCreate.slot_run_of_none hvalid (events py configId data backups) hslot with
      ⟨hnone, hnil⟩ | ⟨e, rest, n, hcons, hle, hsome⟩
    · exact .inr (.inl ⟨rfl, hnil, hnone⟩)
    · have he : e ∈ events py configId data backups :=
        (List.mem_filter.mp (hcons ▸ List.mem_cons_self)).1
      refine .inr (.inr ⟨e.create n, rfl, ?_, entries_create he n, hsome⟩)
      exact hle.trans (e.id_create n).ge

/-- What a job of a guest should have after a sync. -/
theorem isNewest_slot_iff (hbackups : data.backups = some backups)
    (hslot : (jobs configId).slot
      ((jobs configId).run store.toState (events py configId data backups)).rows v = some job) :
    Newest.IsNewest (previous store job ++ jobRuns py configId data job) (register job) ↔
      ∀ t, lastNewest backups v = some t →
        ∀ run ∈ guestPrevious configId store v ++ fileRuns backups v,
          run.1 ≤ t ∨ ∃ task ∈ taskRuns py data v, run.1 ≤ task.1 := by
  rw [jobRuns_of_jobKey hbackups (GetOrCreate.key_of_slot hslot)]
  rcases slot_cases py configId data backups store v with
    ⟨old, hold, hnew⟩ | ⟨-, -, hnone⟩ | ⟨new, hnone, hle, hempty, hnew⟩
  · obtain rfl := Option.some.inj (hnew.symm.trans hslot)
    have hid : (GetOrCreate.changeAll (events py configId data backups) v old).id = old.id :=
      GetOrCreate.id_changeAll (S := jobs configId)
    rw [previous_of_mem (GetOrCreate.mem_of_slot hold) hid, guestPrevious, hold]
    exact isNewest_changeAll_iff py configId data backups v old
  · rw [hnone] at hslot
    cases hslot
  · obtain rfl := Option.some.inj (hnew.symm.trans hslot)
    have hid : (GetOrCreate.changeAll (events py configId data backups) v new).id = new.id :=
      GetOrCreate.id_changeAll (S := jobs configId)
    rw [previous_of_le (hid ▸ hle), guestPrevious, hnone]
    have hiff := isNewest_changeAll_iff py configId data backups v new
    rw [hempty] at hiff
    exact hiff

/-- What a job that no event is for should have after a sync. -/
theorem isNewest_spare_iff (hjob : job ∈ store.jobs) :
    Newest.IsNewest (previous store job ++ jobRuns py configId data job) (register job) ↔
      ∀ v, jobKey configId job = some v →
        ∀ run ∈ runs py data v, ∃ t ∈ job.lastRunAt, run.1 ≤ t := by
  have hnewest : Newest.IsNewest (Newest.entries (register job)) (register job) := by
    simpa [Newest.recordAll] using Newest.isNewest_recordAll (register job) []
  have hentries : ∀ t : ℕ, (∃ run ∈ Newest.entries (register job), t ≤ run.1) ↔
      ∃ t' ∈ job.lastRunAt, t ≤ t' := by
    intro t
    simp [Newest.entries, register]
  rw [previous_of_mem hjob rfl,
    Newest.isNewest_iff_of_subset hnewest (List.subset_append_left _ _), List.forall_mem_append,
    and_iff_right fun run hrun => ⟨run, hrun, le_rfl⟩]
  simp only [hentries]
  unfold jobRuns
  cases jobKey configId job with
  | none => simp
  | some v => simp

/-- Where a file of a guest counts, the guest has events. -/
theorem ofKey_events_ne_nil {t : ℕ} (h : lastNewest backups v = some t) :
    GetOrCreate.ofKey (events py configId data backups) v ≠ [] := by
  obtain ⟨hmem, -⟩ := List.mem_filter.mp (List.mem_of_getLast? h)
  rw [← map_ctime_guestLatestFiles] at hmem
  obtain ⟨f, hf, -⟩ := List.mem_map.mp hmem
  rw [ofKey_events]
  exact List.append_ne_nil_of_left_ne_nil (List.ne_nil_of_mem (List.mem_map_of_mem hf)) _

/-- **When jobs follow their newest runs**: exactly when the files could be read, and where a file
is written into a job, neither a file of the guest nor the run that the job had is newer than both
this file and every task. -/
theorem followsRuns_iff (py : Text.Lower) (configId : ℕ) (data : Snapshot) (store : Store) :
    FollowsRuns py configId data store ↔
      ∃ backups, data.backups = some backups ∧ LastIsNewest py configId data store backups := by
  have hvalid := valid_store store configId
  constructor
  · rintro ⟨synced, hsync, hnewest, -⟩
    obtain ⟨backups, hbackups, hrange⟩ := readable_of_syncProxmoxBackups hsync
    obtain ⟨synced', hsync', hstate⟩ :=
      exists_syncProxmoxBackups py configId store ⟨hbackups, hrange⟩
    obtain rfl := Except.ok.inj (hsync.symm.trans hsync')
    have hjobs : synced.store.jobs =
        ((jobs configId).run store.toState (events py configId data backups)).rows :=
      congrArg GetOrCreate.State.rows hstate
    refine ⟨backups, hbackups, range_iff.mp hrange, fun v t hlast => ?_,
      fun job hjob v hkey hne => ?_⟩
    · rcases slot_cases py configId data backups store v with
        ⟨old, -, hslot⟩ | ⟨-, hnil, -⟩ | ⟨new, -, -, -, hslot⟩
      · exact (isNewest_slot_iff hbackups hslot).mp
          (hnewest _ (hjobs ▸ GetOrCreate.mem_of_slot hslot)) t hlast
      · exact absurd hnil (ofKey_events_ne_nil hlast)
      · exact (isNewest_slot_iff hbackups hslot).mp
          (hnewest _ (hjobs ▸ GetOrCreate.mem_of_slot hslot)) t hlast
    · have hspare : GetOrCreate.Spare (jobs configId) store.toState job := by
        refine ⟨hjob, fun k hk => hne ?_⟩
        obtain rfl := Option.some.inj ((GetOrCreate.key_of_slot hk).symm.trans hkey)
        exact hk
      have hmem : job ∈ synced.store.jobs :=
        hjobs ▸ ((GetOrCreate.spare_run_iff hvalid).mpr hspare).1
      exact (isNewest_spare_iff hjob).mp (hnewest job hmem) v hkey
  · rintro ⟨backups, hbackups, hlast⟩
    have hreadable : Readable data backups := ⟨hbackups, range_iff.mpr hlast.inRange⟩
    obtain ⟨synced, hsync, hstate⟩ := exists_syncProxmoxBackups py configId store hreadable
    obtain ⟨again, hagain, hstate'⟩ := exists_syncProxmoxBackups py configId synced.store hreadable
    have hjobs : synced.store.jobs =
        ((jobs configId).run store.toState (events py configId data backups)).rows :=
      congrArg GetOrCreate.State.rows hstate
    have hsame : again.store.toState = synced.store.toState := by
      rw [hstate', hstate, GetOrCreate.run_run hvalid changeAll_changeAll]
    refine ⟨synced, hsync, fun job hjob => ?_, again, hagain,
      congrArg GetOrCreate.State.rows hsame, congrArg GetOrCreate.State.log hsame⟩
    rw [hjobs] at hjob
    by_cases hspare : ∀ k, (jobs configId).slot
        ((jobs configId).run store.toState (events py configId data backups)).rows k ≠ some job
    · obtain ⟨hold, hno⟩ := (GetOrCreate.spare_run_iff hvalid).mp ⟨hjob, hspare⟩
      exact (isNewest_spare_iff hold).mpr fun v hkey => hlast.spare job hold v hkey (hno v)
    · obtain ⟨v, hslot⟩ := not_forall_not.mp hspare
      exact (isNewest_slot_iff hbackups hslot).mpr (hlast.newest v)

/-! ### Two storages -/

/-- No jobs. -/
def noJobs : Store := ⟨[], 1, [], by decide, by decide⟩

/-- The files could not be read. -/
def unread : Snapshot where
  vms := [⟨some 100, some "web", none, true⟩]
  containers := []
  backups := none
  tasks := [⟨some 1700000000, "pve1", "root@pam", "vzdump", "100", "OK", some true⟩]

/-- The file of the second storage is a day older. -/
def oldArchive : Backups where
  storages := [("fast", [⟨"fast:backup/vzdump-qemu-100-b", 1024, 1700086400, some 100⟩]),
    ("archive", [⟨"archive:backup/vzdump-qemu-100-a", 1024, 1700000000, some 100⟩])]
  nodup := by decide

def twoStorages : Snapshot where
  vms := [⟨some 100, some "web", none, true⟩]
  containers := []
  backups := some oldArchive
  tasks := []

/-- Where the files could not be read, the sync raises; and of two storages the older file is
written. -/
theorem not_followsRuns :
    ¬FollowsRuns .asciiOnly 1 unread noJobs ∧ ¬FollowsRuns .asciiOnly 1 twoStorages noJobs := by
  constructor
  · rintro ⟨synced, hsync, -⟩
    obtain ⟨backups, hbackups, -⟩ := readable_of_syncProxmoxBackups hsync
    cases hbackups
  · rintro ⟨synced, hsync, hnewest, -⟩
    have hreadable : Readable twoStorages oldArchive := ⟨rfl, by decide +kernel⟩
    obtain ⟨synced', hsync', hstate⟩ := exists_syncProxmoxBackups .asciiOnly 1 noJobs hreadable
    obtain rfl := Except.ok.inj (hsync.symm.trans hsync')
    have hjob : ∃ job ∈ ((jobs 1).run noJobs.toState
        (events .asciiOnly 1 twoStorages oldArchive)).rows,
          jobKey 1 job = some 100 ∧ job.lastRunAt = some 1700000000 := by
      decide +kernel
    obtain ⟨job, hmem, hkey, htime⟩ := hjob
    have hjobs : job ∈ synced.store.toState.rows := hstate ▸ hmem
    have hrun : (1700086400, some .ok) ∈ fileRuns oldArchive 100 := by decide +kernel
    have hle := hnewest job hjobs
    rw [jobRuns_of_jobKey rfl hkey, Newest.IsNewest, register, htime] at hle
    exact absurd (hle.2 (1700086400, some .ok) (by simp [hrun])) (by decide)

end Nodeglow.BackupMonitor
