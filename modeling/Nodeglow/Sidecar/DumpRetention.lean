import Mathlib.Algebra.Order.Field.Rat
import Mathlib.Data.List.Sort
import Nodeglow.Foundation.Run
import Nodeglow.Sidecar.Orchestrator

/-!
# The retention of database dumps

Before an update, and at the slots of the schedule, the sidecar dumps the database into one
directory (`dump_database`). The name of a file tells the kind of the dump. After each dump the
files of its kind are listed with the newest first, and those behind the retention number are
deleted. That number is read from the environment with `int()`, so that it can be any integer.

A dump succeeds or fails, and the operations on files answer as the disk lets them. Dumps are taken
one after the other: each is younger than the files in the directory, and its stamp is none of
theirs.

## Main results

* `promised_iff` — dumps are kept as promised if and only if the retention number is positive.

Source: `sidecar/orchestrator.py`, lines 43–46 and 352–447; `sidecar/update-server.py`, line 56.
-/

namespace Nodeglow.Sidecar.Backup

/-! ### Files -/

/-- `BACKUP_KINDS`. -/
inductive Kind
  | preUpdate | scheduled
deriving DecidableEq, Repr

/-- `BACKUP_PREFIX` and `SCHEDULED_PREFIX`. -/
def Kind.start : Kind → String
  | preUpdate => "pre-update-"
  | scheduled => "scheduled-"

/-- `BACKUP_SUFFIX`. -/
def backupSuffix : String := ".dump.gz"

/-- A file, with what `os.stat` says of it. -/
structure File where
  name : String
  size : ℕ
  mtime : ℚ
deriving DecidableEq, Repr

/-- The files of the backup directory, in the order of `os.listdir`. -/
abbrev Directory := List File

/-- `_backup_kind`. -/
def backupKind (name : String) : Option Kind :=
  if backupSuffix.toList.isSuffixOf name.toList then
    [Kind.preUpdate, .scheduled].find? fun kind => kind.start.toList.isPrefixOf name.toList
  else none

/-- What the operations on files answer while one dump is taken. -/
structure Disk where
  /-- The `OSError` of `os.makedirs`, if it raises one. -/
  makeDir : Option String
  /-- Whether `os.listdir` works, and `os.stat` and `os.remove` of a file. -/
  listing : Bool
  readable : String → Bool
  removable : String → Bool

/-- The directory can be listed, and its files can be read and removed. -/
structure Disk.Works (disk : Disk) : Prop where
  listing : disk.listing = true
  readable : ∀ name, disk.readable name = true
  removable : ∀ name, disk.removable name = true

/-- A file is written: it replaces the one of its name. -/
def Directory.write (dir : Directory) (file : File) : Directory :=
  dir.filter (fun f => f.name ≠ file.name) ++ [file]

/-- `os.remove`, where an `OSError` is caught. -/
def Disk.remove (disk : Disk) (dir : Directory) (name : String) : Directory :=
  if disk.removable name then dir.filter fun f => f.name ≠ name else dir

/-! ### Listing and pruning -/

/-- `list_backups`. -/
def listBackups (disk : Disk) (start : Option String) (dir : Directory) : List File :=
  if disk.listing then
    (dir.filter fun f => (backupKind f.name).isSome &&
      start.all (fun s => s.toList.isPrefixOf f.name.toList) && disk.readable f.name).insertionSort
        fun f g => g.mtime ≤ f.mtime
  else []

/-- `entries[start:]`. A negative start counts from the end. -/
def sliceFrom (entries : List File) (start : ℤ) : List File :=
  entries.drop (if 0 ≤ start then start.toNat else (entries.length + start).toNat)

/-- `prune_backups`: the directory, and the count kept. -/
def pruneBackups (disk : Disk) (retention : ℤ) (start : String) (dir : Directory) :
    Directory × ℤ :=
  let entries := listBackups disk (some start) dir
  (((sliceFrom entries retention).map File.name).foldl disk.remove dir,
    min entries.length retention)

/-! ### Dumps -/

/-- How `run_dump` ends. -/
inductive DumpEnd
  /-- The exit code is 0. -/
  | done (size : ℕ)
  /-- The exit code is not 0. There may be a file, with a part of the dump. -/
  | failed (part : Option ℕ) (stderr : String)
  /-- The command cannot be started. -/
  | raises (e : Exn)
deriving DecidableEq, Repr

/-- A call of `dump_database`: the kind, the container, the time as `ctx.now()` writes it and as the
file system does, how the command ends, and what the operations on files answer. -/
structure Dump where
  kind : Kind
  dbContainer : String
  now : String
  mtime : ℚ
  ending : DumpEnd
  disk : Disk

/-- `ctx.now().replace(":", "-")`. -/
def Dump.stamp (d : Dump) : String :=
  String.ofList (d.now.toList.map fun c => if c = ':' then '-' else c)

/-- The name of the file. -/
def Dump.name (d : Dump) : String := d.kind.start ++ d.stamp ++ backupSuffix

/-- The file that the dump writes. -/
def Dump.file (d : Dump) (size : ℕ) : File := ⟨d.name, size, d.mtime⟩

/-- `dump_database`: the directory, and the exception or the name, the size and the count kept. -/
def dumpDatabase (retention : ℤ) (d : Dump) (dir : Directory) :
    Directory × Except Exn (String × ℕ × ℤ) :=
  if d.dbContainer = "" then
    (dir, .error (stepError "Database container not resolved; set DB_CONTAINER in .env"))
  else
    match d.disk.makeDir, d.ending with
    | some e, _ => (dir, .error (stepError ("Backup directory unavailable: " ++ e)))
    | none, .raises e => (dir, .error e)
    | none, .failed part stderr =>
      (d.disk.remove (part.elim dir fun size => dir.write (d.file size)) d.name,
        .error (stepError ("pg_dump failed: " ++ Text.lastChars maxErrorChars stderr)))
    | none, .done size =>
      let (dir, kept) := pruneBackups d.disk retention d.kind.start (dir.write (d.file size))
      (dir, .ok (d.name, size, kept))

/-- The status record of a scheduled dump. -/
structure BackupStatus where
  ok : Bool
  started : String
  name : Option String
  size : ℕ
  error : Option String
deriving DecidableEq, Repr

/-! ### What is promised -/

/-- The dumps of a kind. -/
def dumpsOf (kind : Kind) (dir : Directory) : List File :=
  dir.filter fun f => backupKind f.name = some kind

/-- Of all files the newest are kept, up to a number of them. -/
def Newest (n : ℕ) (all kept : List File) : Prop :=
  ∃ older, all.Perm (kept ++ older) ∧ kept.length = min n all.length ∧
    ∀ f ∈ kept, ∀ g ∈ older, g.mtime ≤ f.mtime

/-- What is promised of a dump that finds a directory. -/
structure Promised (retention : ℤ) (d : Dump) (dir : Directory) : Prop where
  /-- The file that a dump reports exists. -/
  reported : ∀ {name size kept}, (dumpDatabase retention d dir).2 = .ok (name, size, kept) →
    d.file size ∈ (dumpDatabase retention d dir).1 ∧ name = d.name
  /-- Of the dumps of the kind, with the new one, the newest exist. -/
  newest : d.disk.Works → ∀ {name size kept},
    (dumpDatabase retention d dir).2 = .ok (name, size, kept) →
      Newest retention.toNat (dumpsOf d.kind (dir ++ [d.file size]))
        (dumpsOf d.kind (dumpDatabase retention d dir).1)
  /-- No dump of the other kind is removed. -/
  others : ∀ f ∈ dir, ∀ kind, backupKind f.name = some kind → kind ≠ d.kind →
    f ∈ (dumpDatabase retention d dir).1
  /-- A dump that fails removes none. -/
  failing : ∀ {e}, (dumpDatabase retention d dir).2 = .error e →
    ∀ f ∈ dir, f ∈ (dumpDatabase retention d dir).1

/-- A dump is taken later than the files of a directory were written, and its stamp is another. -/
structure Later (d : Dump) (dir : Directory) : Prop where
  mtime : ∀ f ∈ dir, f.mtime < d.mtime
  name : ∀ f ∈ dir, f.name ≠ d.name

/-- One dump after the other. -/
def Step (retention : ℤ) (dir : Directory) (d : Dump) (dir' : Directory) : Prop :=
  Later d dir ∧ (dumpDatabase retention d dir).1 = dir'

/-! ### Kinds and names -/

variable {retention : ℤ} {d : Dump} {disk : Disk} {dir dir' : Directory}

theorem backupKind_eq_some {name : String} {kind : Kind} (h : backupKind name = some kind) :
    kind.start.toList <+: name.toList := by
  unfold backupKind at h
  split at h
  · simpa using List.find?_some h
  · simp at h

/-- No name has the prefixes of two kinds. -/
theorem kind_unique {name : List Char} {kind other : Kind} (h : kind.start.toList <+: name)
    (h' : other.start.toList <+: name) : kind = other := by
  obtain ⟨rest, rfl⟩ := h
  obtain ⟨rest', h'⟩ := h'
  cases kind <;> cases other <;> simp [Kind.start] at h' ⊢

/-- The files that are listed for a kind. -/
theorem backupKind_eq_some_iff {name : String} {kind : Kind} :
    backupKind name = some kind ↔
      ((backupKind name).isSome && kind.start.toList.isPrefixOf name.toList) = true := by
  rw [Bool.and_eq_true, List.isPrefixOf_iff_prefix, Option.isSome_iff_exists]
  constructor
  · intro h
    exact ⟨⟨kind, h⟩, backupKind_eq_some h⟩
  · rintro ⟨⟨other, h⟩, hkind⟩
    rw [h, kind_unique (backupKind_eq_some h) hkind]

/-! ### What is removed -/

theorem mem_remove {f : File} {name : String} (hf : f ∈ dir) (hname : f.name ≠ name) :
    f ∈ disk.remove dir name := by
  unfold Disk.remove
  split
  · exact List.mem_filter.mpr ⟨hf, by simpa using hname⟩
  · exact hf

theorem mem_foldl_remove {f : File} {names : List String} (hf : f ∈ dir)
    (hnames : f.name ∉ names) : f ∈ names.foldl disk.remove dir := by
  induction names generalizing dir with
  | nil => exact hf
  | cons name names ih =>
    rw [List.mem_cons, not_or] at hnames
    exact ih (mem_remove hf hnames.1) hnames.2

theorem foldl_remove (hdisk : disk.Works) (names : List String) (dir : Directory) :
    names.foldl disk.remove dir = dir.filter fun f => f.name ∉ names := by
  induction names generalizing dir with
  | nil => simp
  | cons name names ih =>
    rw [List.foldl_cons, ih, Disk.remove, if_pos (hdisk.removable name), List.filter_filter]
    refine List.filter_congr fun f _ => ?_
    simp only [List.mem_cons, not_or, Bool.decide_and, Bool.and_comm]

theorem mem_listBackups {f : File} {kind : Kind} (hf : f ∈ listBackups disk (some kind.start) dir) :
    f ∈ dir ∧ backupKind f.name = some kind := by
  unfold listBackups at hf
  split at hf
  · rw [List.mem_insertionSort, List.mem_filter] at hf
    refine ⟨hf.1, backupKind_eq_some_iff.mpr ?_⟩
    exact (Bool.and_eq_true_iff.mp hf.2).1
  · simp at hf

/-- Where the operations on files work, all dumps of the kind are listed. -/
theorem perm_listBackups (hdisk : disk.Works) (kind : Kind) (dir : Directory) :
    (listBackups disk (some kind.start) dir).Perm (dumpsOf kind dir) := by
  rw [listBackups, if_pos hdisk.listing]
  refine (List.perm_insertionSort _ _).trans (.of_eq (List.filter_congr fun f _ => ?_))
  rw [hdisk.readable, Bool.and_true, Bool.eq_iff_iff, decide_eq_true_iff]
  exact backupKind_eq_some_iff.symm

theorem pairwise_listBackups (disk : Disk) (dir : Directory) (start : Option String) :
    (listBackups disk start dir).Pairwise fun f g => g.mtime ≤ f.mtime := by
  unfold listBackups
  split
  · have : Std.Total fun f g : File => g.mtime ≤ f.mtime := ⟨fun f g => le_total _ _⟩
    have : IsTrans File fun f g => g.mtime ≤ f.mtime := ⟨fun _ _ _ h h' => h'.trans h⟩
    exact List.pairwise_insertionSort _ _
  · exact .nil

theorem nodup_listBackups (disk : Disk) (start : Option String) (hdir : (dir.map File.name).Nodup) :
    ((listBackups disk start dir).map File.name).Nodup := by
  unfold listBackups
  split
  · rw [((List.perm_insertionSort _ _).map File.name).nodup_iff]
    exact hdir.sublist (List.filter_sublist.map File.name)
  · simp

/-- Of files that are deleted by their names the others are left. -/
theorem perm_filter_name {all front back : List File} (h : all.Perm (front ++ back))
    (hnodup : ((front ++ back).map File.name).Nodup) :
    (all.filter fun f => f.name ∉ back.map File.name).Perm front := by
  rw [List.map_append] at hnodup
  refine (h.filter _).trans (.of_eq ?_)
  have hfront : front.filter (fun f => f.name ∉ back.map File.name) = front := by
    refine List.filter_eq_self.mpr fun f hf => decide_eq_true fun hmem => ?_
    exact (List.nodup_append.mp hnodup).2.2 _ (List.mem_map_of_mem hf) _ hmem rfl
  have hback : back.filter (fun f => f.name ∉ back.map File.name) = [] := by
    refine List.filter_eq_nil_iff.mpr fun f hf hmem => ?_
    exact (of_decide_eq_true hmem) (List.mem_map_of_mem hf)
  rw [List.filter_append, hfront, hback, List.append_nil]

/-- **Pruning keeps the newest dumps of a kind.** -/
theorem newest_pruneBackups (hdisk : disk.Works) (hretention : 0 ≤ retention) (kind : Kind)
    (hdir : (dir.map File.name).Nodup) :
    Newest retention.toNat (dumpsOf kind dir)
      (dumpsOf kind (pruneBackups disk retention kind.start dir).1) := by
  have hperm := perm_listBackups hdisk kind dir
  have hsorted := pairwise_listBackups disk dir (some kind.start)
  have hnodup := nodup_listBackups disk (some kind.start) hdir
  have hafter : dumpsOf kind (pruneBackups disk retention kind.start dir).1 =
      (dumpsOf kind dir).filter fun f => f.name ∉
        ((listBackups disk (some kind.start) dir).drop retention.toNat).map File.name := by
    simp only [pruneBackups, foldl_remove hdisk, sliceFrom, if_pos hretention, dumpsOf,
      List.filter_filter]
    exact List.filter_congr fun f _ => Bool.and_comm _ _
  have hsplit := (List.take_append_drop retention.toNat (listBackups disk (some kind.start) dir))
  have hlength : ((listBackups disk (some kind.start) dir).take retention.toNat).length =
      min retention.toNat (dumpsOf kind dir).length := by
    rw [List.length_take, hperm.length_eq]
  rw [hafter]
  generalize (listBackups disk (some kind.start) dir).take retention.toNat = front,
    (listBackups disk (some kind.start) dir).drop retention.toNat = back at *
  rw [← hsplit] at hperm hsorted hnodup
  -- what is left of the dumps is what comes before the slice
  have hkept := perm_filter_name hperm.symm hnodup
  refine ⟨back, hperm.symm.trans (hkept.symm.append_right _), ?_, ?_⟩
  · rw [hkept.length_eq, hlength]
  · intro f hf g hg
    exact (List.pairwise_append.mp hsorted).2.2 f (hkept.mem_iff.mp hf) g hg

/-- **Pruning keeps the youngest file**, if it keeps any. -/
theorem mem_pruneBackups {file : File} (hretention : 1 ≤ retention) (start : Kind)
    (hdir : (dir.map File.name).Nodup) (hfile : file ∈ dir)
    (hyoung : ∀ f ∈ dir, f.name ≠ file.name → f.mtime < file.mtime) :
    file ∈ (pruneBackups disk retention start.start dir).1 := by
  refine mem_foldl_remove hfile fun hmem => ?_
  obtain ⟨g, hg, hname⟩ := List.mem_map.mp hmem
  have hsorted := pairwise_listBackups disk dir (some start.start)
  have hnodup := nodup_listBackups disk (some start.start) hdir
  have hsub : ∀ f ∈ listBackups disk (some start.start) dir, f ∈ dir :=
    fun f hf => (mem_listBackups hf).1
  rw [sliceFrom, if_pos (by omega)] at hg
  obtain ⟨n, hn⟩ : ∃ n, retention.toNat = n + 1 := ⟨retention.toNat - 1, by omega⟩
  rw [hn] at hg
  cases hentries : listBackups disk (some start.start) dir with
  | nil => simp [hentries] at hg
  | cons first rest =>
    rw [hentries] at hg hsorted hnodup hsub
    have hrest : g ∈ rest := List.mem_of_mem_drop hg
    -- the first of the list has another name, and is not older
    have hne : first.name ≠ file.name := by
      intro heq
      rw [List.map_cons, List.nodup_cons] at hnodup
      exact hnodup.1 (List.mem_map.mpr ⟨g, hrest, hname.trans heq.symm⟩)
    have hlt := hyoung first (hsub first (by simp)) hne
    have hg' : g = file := List.inj_on_of_nodup_map hdir (hsub g (by simp [hrest])) hfile hname
    have hle := List.rel_of_pairwise_cons hsorted hrest
    rw [hg'] at hle
    exact absurd hlt (not_lt.mpr hle)

/-- Pruning removes no dump of the other kind. -/
theorem mem_pruneBackups_of_ne {f : File} {kind other : Kind} (hf : f ∈ dir)
    (hkind : backupKind f.name = some kind) (hne : kind ≠ other) :
    f ∈ (pruneBackups disk retention other.start dir).1 := by
  refine mem_foldl_remove hf fun hmem => ?_
  obtain ⟨g, hg, hname⟩ := List.mem_map.mp hmem
  have hg' := (mem_listBackups (List.mem_of_mem_drop hg)).2
  rw [hname, hkind] at hg'
  exact hne (Option.some.inj hg')

/-! ### Dumps, one after the other -/

theorem write_of_later (h : Later d dir) (size : ℕ) :
    dir.write (d.file size) = dir ++ [d.file size] := by
  have hkeep : dir.filter (fun f => f.name ≠ (d.file size).name) = dir :=
    List.filter_eq_self.mpr fun f hf => decide_eq_true (h.name f hf)
  rw [Directory.write, hkeep]

theorem nodup_write (h : Later d dir) (hdir : (dir.map File.name).Nodup) (size : ℕ) :
    ((dir.write (d.file size)).map File.name).Nodup := by
  rw [write_of_later h, List.map_append, List.nodup_append]
  refine ⟨hdir, by simp, fun name hname other hother => ?_⟩
  obtain ⟨f, hf, rfl⟩ := List.mem_map.mp hname
  rw [List.map_singleton, List.mem_singleton] at hother
  exact hother.symm ▸ h.name f hf

theorem sublist_remove (disk : Disk) (dir : Directory) (name : String) :
    (disk.remove dir name).Sublist dir := by
  unfold Disk.remove
  split
  · exact List.filter_sublist
  · exact .refl _

theorem sublist_foldl_remove (disk : Disk) (names : List String) (dir : Directory) :
    (names.foldl disk.remove dir).Sublist dir := by
  induction names generalizing dir with
  | nil => exact .refl _
  | cons name names ih => exact (ih _).trans (sublist_remove disk dir name)

/-- How a dump ends: with an exception, and all files are left, or with its file written and the
directory pruned. -/
theorem dumpDatabase_cases (retention : ℤ) (h : Later d dir) :
    (∃ e dir', dumpDatabase retention d dir = (dir', .error e) ∧ (∀ f ∈ dir, f ∈ dir') ∧
      ((dir.map File.name).Nodup → (dir'.map File.name).Nodup)) ∨
    ∃ size, dumpDatabase retention d dir =
      ((pruneBackups d.disk retention d.kind.start (dir ++ [d.file size])).1,
        .ok (d.name, size,
          (pruneBackups d.disk retention d.kind.start (dir ++ [d.file size])).2)) := by
  unfold dumpDatabase
  split
  · exact .inl ⟨_, dir, rfl, fun f hf => hf, id⟩
  · split
    · exact .inl ⟨_, dir, rfl, fun f hf => hf, id⟩
    · exact .inl ⟨_, dir, rfl, fun f hf => hf, id⟩
    · rename_i part stderr _ _
      cases part with
      | none =>
        exact .inl ⟨_, _, rfl, fun f hf => mem_remove hf (h.name f hf),
          fun hdir => hdir.sublist ((sublist_remove _ _ _).map _)⟩
      | some size =>
        refine .inl ⟨_, _, rfl, fun f hf => mem_remove ?_ (h.name f hf),
          fun hdir => (nodup_write h hdir size).sublist ((sublist_remove _ _ _).map _)⟩
        rw [Option.elim_some, write_of_later h]
        exact List.mem_append_left _ hf
    · rename_i size _ _
      exact .inr ⟨size, by rw [write_of_later h]⟩

theorem nodup_of_step (hdir : (dir.map File.name).Nodup) (h : Step retention dir d dir') :
    (dir'.map File.name).Nodup := by
  obtain ⟨hlater, rfl⟩ := h
  rcases dumpDatabase_cases retention hlater with ⟨e, dir', heq, -, hnodup⟩ | ⟨size, heq⟩
  · rw [heq]
    exact hnodup hdir
  · rw [heq]
    have hsub := sublist_foldl_remove d.disk ((sliceFrom (listBackups d.disk (some d.kind.start)
      (dir ++ [d.file size])) retention).map File.name) (dir ++ [d.file size])
    rw [← write_of_later hlater size] at hsub ⊢
    exact (nodup_write hlater hdir size).sublist (hsub.map _)

/-- With a positive retention number a dump keeps what is promised of it. -/
theorem promised_of_pos (hretention : 1 ≤ retention) (hdir : (dir.map File.name).Nodup)
    (h : Later d dir) : Promised retention d dir := by
  rcases dumpDatabase_cases retention h with ⟨e, dir', heq, hleft, -⟩ | ⟨size, heq⟩
  · exact ⟨by simp [heq], by simp [heq], fun f hf _ _ _ => by simpa [heq] using hleft f hf,
      fun _ f hf => by simpa [heq] using hleft f hf⟩
  · have hnodup : ((dir ++ [d.file size]).map File.name).Nodup :=
      write_of_later h size ▸ nodup_write h hdir size
    have hyoung : ∀ f ∈ dir ++ [d.file size], f.name ≠ (d.file size).name →
        f.mtime < (d.file size).mtime := by
      intro f hf hne
      rcases List.mem_append.mp hf with hf | hf
      · exact h.mtime f hf
      · exact absurd (congrArg File.name (List.mem_singleton.mp hf)) hne
    refine ⟨?_, ?_, ?_, by simp [heq]⟩
    · intro name size' kept hok
      rw [heq] at hok ⊢
      obtain ⟨rfl, rfl, -⟩ : d.name = name ∧ size = size' ∧ _ := by simpa using hok
      exact ⟨mem_pruneBackups hretention d.kind hnodup (by simp) hyoung, rfl⟩
    · intro hdisk name size' kept hok
      rw [heq] at hok ⊢
      obtain ⟨-, rfl, -⟩ : d.name = name ∧ size = size' ∧ _ := by simpa using hok
      exact newest_pruneBackups hdisk (by omega) d.kind hnodup
    · intro f hf kind hkind hne
      rw [heq]
      exact mem_pruneBackups_of_ne (List.mem_append_left _ hf) hkind hne

/-! ### The retention number -/

/-- A scheduled dump of a working disk. -/
def sampleDump : Dump where
  kind := .scheduled
  dbContainer := "nodeglow-db-1"
  now := "2026-10-10T02:30:00"
  mtime := 1
  ending := .done 4096
  disk := ⟨none, true, fun _ => true, fun _ => true⟩

theorem later_nil (d : Dump) : Later d [] := ⟨by simp, by simp⟩

/-- Without a positive retention number the first dump deletes its own file. -/
theorem dumpDatabase_sampleDump (retention : ℤ) (hretention : retention < 1) :
    dumpDatabase retention sampleDump [] = ([], .ok (sampleDump.name, 4096, retention)) := by
  have hlist : listBackups sampleDump.disk (some sampleDump.kind.start) [sampleDump.file 4096] =
      [sampleDump.file 4096] := by decide +kernel
  have hslice : sliceFrom [sampleDump.file 4096] retention = [sampleDump.file 4096] := by
    unfold sliceFrom
    split
    · obtain rfl : retention = 0 := by omega
      rfl
    · rw [List.length_singleton, show ((1 : ℕ) + retention).toNat = 0 by omega, List.drop_zero]
  have hprune : pruneBackups sampleDump.disk retention sampleDump.kind.start
      [sampleDump.file 4096] = ([], retention) := by
    rw [pruneBackups, hlist, hslice]
    refine Prod.ext ?_ ?_
    · simp [Disk.remove, sampleDump]
    · simp only [List.length_singleton]
      omega
  have hcases := dumpDatabase_cases retention (later_nil sampleDump)
  rcases hcases with ⟨e, dir', heq, -⟩ | ⟨size, heq⟩
  · simp [dumpDatabase, sampleDump] at heq
  · obtain ⟨rfl, -⟩ : 4096 = size ∧ _ := by
      simpa [dumpDatabase, sampleDump] using congrArg Prod.snd heq
    rw [heq, List.nil_append, hprune]

/-- **Dumps are kept as promised** after any dumps, from any directory, if and only if the retention
number is positive. -/
theorem promised_iff (retention : ℤ) :
    (∀ (start dir : Directory) (dumps : List Dump) (d : Dump), (start.map File.name).Nodup →
      Run (Step retention) start dumps dir → Later d dir → Promised retention d dir) ↔
    1 ≤ retention := by
  constructor
  · intro h
    by_contra hretention
    have hpromised := h [] [] [] sampleDump (by simp) (.nil _) (later_nil _)
    have heq := dumpDatabase_sampleDump retention (by omega)
    obtain ⟨hmem, -⟩ := hpromised.reported (congrArg Prod.snd heq)
    simp [heq] at hmem
  · intro hretention start dir dumps d hstart hrun hlater
    have hdir : (dir.map File.name).Nodup :=
      hrun.invariant (I := fun dir => (dir.map File.name).Nodup)
        (fun _ _ _ hdir hstep => nodup_of_step hdir hstep) hstart
    exact promised_of_pos hretention hdir hlater

/-- With the retention number 0 a successful dump deletes the file it reports. -/
theorem not_promised_zero :
    ¬ ∀ (retention : ℤ) (start dir : Directory) (dumps : List Dump) (d : Dump),
      (start.map File.name).Nodup → Run (Step retention) start dumps dir → Later d dir →
        Promised retention d dir := by
  intro h
  have heq := dumpDatabase_sampleDump 0 (by decide)
  obtain ⟨hmem, -⟩ := (h 0 [] [] [] sampleDump (by simp) (.nil _) (later_nil _)).reported
    (congrArg Prod.snd heq)
  simp [heq] at hmem

end Nodeglow.Sidecar.Backup
