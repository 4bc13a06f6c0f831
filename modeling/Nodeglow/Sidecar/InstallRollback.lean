import Nodeglow.Sidecar.ImageUpdate

/-!
# A failed image update and the installation files

The step `install` replaces the deploy files one by one. Before it touches a file it keeps a copy
and notes in the plan how to undo the replacement, and `revert_install` puts the noted files back.
The invariant of the replacement (`Undoable`) says that the files noted so far can be restored and
that the other ones are as they were; it holds at each point at which an operation can fail.

The undo is attached to particular exceptions: in `install` to an `OSError` of the replacement and
to a `StepError` of the check of `/data` that follows it, in `migrate` to every exception. When a
command of that check exceeds its timeout, nothing is put back: the new files stay in place although
the update has failed (`new_files_after_timeout`). Where docker answers the two questions of the
check, the undo succeeds, and the last state is written, a failed update leaves the installation as
it was (`installation_kept`).

## Main results

* `Sidecar.revertInstall_ensures`, `Sidecar.stepInstall_ensures`,
  `Sidecar.stepImageMigrate_ensures`.
* `Sidecar.installation_kept`.

Source: `sidecar/image_update.py`, `sidecar/orchestrator.py`.
-/

namespace Nodeglow.Sidecar

open Effect

/-! ### What a failed update owes -/

/-- The names of the steps in their order, `IMAGE_STEP_NAMES`. -/
def imageStepNames : List StepName :=
  [.preflight, .resolve, .verify, .backup, .pull, .stage, .install, .migrate, .restart, .handoff]

theorem imageSteps_names (c : Ctx) (env : Environment) :
    (imageSteps c env).map Prod.fst = imageStepNames := rfl

theorem imageStepNames_nodup : imageStepNames.Nodup := by decide

/-- The steps from `restart` on: the new containers may already run. -/
def StepName.isLate (name : StepName) : Bool := name = .restart || name = .handoff

/-- A run that fails before the restart leaves every file of the installation with its content, a
file that was not there is not there, and what the run has recorded is the failure at that step with
every later step pending. -/
def LeavesInstallation (files : Path → Option String) (out : Outcome) : Prop :=
  ∀ name, out.state.status = .failed → out.state.step = some name → name.isLate = false →
    (∀ f, out.world.files (.live f) = files (.live f)) ∧
      ∃ recorded, out.recorded = some recorded ∧ recorded.FailedAt imageStepNames name

/-! ### The steps before `install` -/

/-- The installation files have the contents `before`. -/
def Untouched (before : InstallFile → Option String) (w : World) : Prop :=
  ∀ f, w.files (.live f) = before f

/-- The property does not depend on the images of docker and the containers made from them. -/
def DockerBlind (I : World → Prop) : Prop :=
  ∀ w images created, I w → I { w with images := images, created := created }

section Frame

variable {c : Ctx} {env : Environment} {I : World → Prop}

theorem createContainer_keeps (hI : DockerBlind I) (command : Command) (ref : String) :
    Keeps I (createContainer env command ref) := by
  have hensure : Keeps I (ensureImage env command ref) := by
    refine ⟨fun w hw => ?_⟩
    unfold ensureImage
    cases w.images ref with
    | some image => exact hw
    | none =>
      cases env.registry command ref with
      | none => exact hw
      | some image => exact hI w _ w.created hw
  refine hensure.bind fun image => ?_
  cases image with
  | none => exact .pure _
  | some image =>
    exact (Keeps.update fun w hw => hI w w.images (image :: w.created) hw).bind fun _ => .pure _

theorem createServices_keeps (hI : DockerBlind I) (command : Command) (services : List Service) :
    Keeps I (createServices env command services) := by
  induction services with
  | nil => exact .pure _
  | cons service services ih =>
    refine Keeps.get.bind fun w => ?_
    cases composeImage env w service with
    | none => exact ih
    | some ref => exact (createContainer_keeps hI command ref).bind fun _ => ih

theorem pullServices_keeps (hI : DockerBlind I) (services : List Service) :
    Keeps I (pullServices env services) := by
  induction services with
  | nil => exact .pure _
  | cons service services ih =>
    refine Keeps.get.bind fun w => ?_
    cases (composeImage env w service).bind fun ref =>
        (env.registry .composePull ref).map fun image => (ref, image) with
    | none => exact ih
    | some p => exact (Keeps.update fun w hw => hI w _ w.created hw).bind fun _ => ih

theorem serviceImages_keeps : Keeps I (serviceImages env) := by
  refine (composeConfig_keeps _).bind fun ⟨code, config, stderr⟩ => ?_
  refine (Keeps.raiseIf _ _).bind fun _ => ?_
  cases config with
  | none => exact .throw _
  | some config => exact (liftExcept_keeps _).bind fun _ => liftExcept_keeps _

theorem cosignDigests_keeps (images : List (Service × String)) (digests : List (String × String)) :
    Keeps I (cosignDigests env images digests) := by
  induction images generalizing digests with
  | nil => exact .pure _
  | cons p images ih =>
    refine Keeps.bind ?_ fun digest => ih _
    refine (runCmd_keeps _).bind fun _ => (Keeps.raiseIf _ _).bind fun _ => ?_
    refine (liftExcept_keeps _).bind fun digest => ?_
    cases digest with
    | none => exact .throw _
    | some digest => exact .pure _

theorem checkDigests_keeps (digests : List (String × String)) :
    Keeps I (checkDigests env digests) := by
  induction digests with
  | nil => exact .pure _
  | cons p digests ih =>
    refine (runCmd_keeps _).bind fun _ => Keeps.get.bind fun w => ?_
    exact (Keeps.raiseIf _ _).bind fun _ => ih

end Frame

section Early

variable {c : Ctx} {env : Environment} {before : InstallFile → Option String}

theorem untouched_dockerBlind : DockerBlind (Untouched before) := fun _ _ _ h => h

theorem preflightVersion_untouched (current : String) :
    Keeps (Untouched before) (preflightVersion c env current) := by
  refine Keeps.bind (.raiseIf _ _) fun _ => Keeps.bind (liftExcept_keeps _) fun free => ?_
  refine Keeps.bind (.raiseIf _ _) fun _ => Keeps.bind (.raiseIf _ _) fun _ => ?_
  refine Keeps.bind (runCmd_keeps _) fun ⟨code, _⟩ => Keeps.bind (.raiseIf _ _) fun _ => ?_
  refine Keeps.bind (checkDataMount_keeps _) fun data => ?_
  exact Keeps.bind (.update fun _ h => h) fun _ => .pure _

theorem stepImagePreflight_untouched : Keeps (Untouched before) (stepImagePreflight c env) := by
  refine Keeps.bind (.raiseIf _ _) fun _ => Keeps.get.bind fun w => ?_
  exact Keeps.bind (.raiseIf _ _) fun _ => preflightVersion_untouched _

theorem stepResolve_untouched : Keeps (Untouched before) (stepResolve c env) := by
  refine Keeps.get.bind fun w => (liftExcept_keeps _).bind fun target => ?_
  refine Keeps.bind (.update fun _ h => h) fun _ => serviceImages_keeps.bind fun images => ?_
  refine Keeps.bind (.update fun _ h => h) fun _ => ?_
  cases images.find? fun p => !hasTag target p.2 with
  | none => exact .pure _
  | some p => exact .throw _

theorem stepVerify_untouched : Keeps (Untouched before) (stepVerify c env) := by
  unfold stepVerify
  split
  · exact .pure _
  · refine (Keeps.raiseIf _ _).bind fun _ => Keeps.get.bind fun w => ?_
    refine (cosignDigests_keeps _ _).bind fun digests => ?_
    exact Keeps.bind (.update fun _ h => h) fun _ => .pure _

theorem stepImagePull_untouched : Keeps (Untouched before) (stepImagePull env) := by
  refine (pullServices_keeps untouched_dockerBlind _).bind fun _ => (runCmd_keeps _).bind fun _ => ?_
  refine (Keeps.raiseIf _ _).bind fun _ => Keeps.get.bind fun w => ?_
  exact (checkDigests_keeps _).bind fun _ => .pure _

/-- The files are copied to the staging directory only. -/
theorem copyDeployFiles_untouched (image : String) :
    Keeps (Untouched before) (copyDeployFiles env image) := by
  refine (createContainer_keeps untouched_dockerBlind _ _).bind fun container => ?_
  refine (runCmd_keeps _).bind fun _ => ?_
  cases container with
  | none => exact .throw _
  | some container =>
    refine (Keeps.raiseIf _ _).bind fun _ => Keeps.bind (.update fun _ h => h) fun _ => ?_
    refine (runCmd_keeps _).attempt.bind fun copied => (runCmd_keeps _).bind fun _ => ?_
    exact liftExcept_keeps _

theorem stepStage_untouched : Keeps (Untouched before) (stepStage env) := by
  refine Keeps.get.bind fun w => ?_
  cases plannedUpdater w with
  | none => exact .throw _
  | some image =>
    refine Keeps.bind (.update fun _ h => h) fun _ => (touch_keeps _).bind fun _ => ?_
    refine (copyDeployFiles_untouched image).bind fun _ => (Keeps.raiseIf _ _).bind fun _ => ?_
    refine Keeps.get.bind fun w => (Keeps.raiseIf _ _).bind fun _ => ?_
    exact (runCmd_keeps _).bind fun _ => (Keeps.raiseIf _ _).bind fun _ => .pure _

end Early

/-! ### The replacement and its undo -/

/-- How the replacement of a file is undone, given what was there: a copy is put back, or the new
file is removed. -/
def undoEntry (before : InstallFile → Option String) (f : InstallFile) : Option Path × Path :=
  (if (before f).isSome then some (.kept f) else none, .live f)

/-- The invariant of the replacement: the files `noted` so far can be undone, and the other ones
are as they were. -/
structure Undoable (before : InstallFile → Option String) (noted : List InstallFile) (w : World) :
    Prop where
  replaced : w.plan.replaced = noted.map (undoEntry before)
  kept : ∀ f ∈ noted, (before f).isSome → w.files (.kept f) = before f
  live : ∀ f, f ∉ noted → w.files (.live f) = before f

section Replacement

variable {c : Ctx} {env : Environment} {before : InstallFile → Option String}
  {noted : List InstallFile}

theorem undoable_dockerBlind : DockerBlind (Undoable before noted) :=
  fun _ _ _ h => ⟨h.replaced, h.kept, h.live⟩

/-- Writing a noted file, or its temporary file, breaks nothing. -/
theorem Undoable.setFile {w : World} (h : Undoable before noted w) {p : Path}
    (hp : p = .envTmp ∨ ∃ f ∈ noted, p = .live f) (content : Option String) :
    Undoable before noted (w.setFile p content) := by
  refine ⟨h.replaced, fun f hf hsome => ?_, fun f hf => ?_⟩
  · have hne : Path.kept f ≠ p := by rcases hp with rfl | ⟨g, -, rfl⟩ <;> simp
    simp only [World.setFile, Function.update_of_ne hne]
    exact h.kept f hf hsome
  · have hne : Path.live f ≠ p := by
      rcases hp with rfl | ⟨g, hg, rfl⟩
      · simp
      · intro heq
        obtain rfl := Path.live.inj heq
        exact hf hg
    simp only [World.setFile, Function.update_of_ne hne]
    exact h.live f hf

/-- The copy of a file that is not noted yet can be written. -/
theorem Undoable.setKept {w : World} (h : Undoable before noted w) {f : InstallFile}
    (hf : f ∉ noted) (content : Option String) :
    Undoable before noted (w.setFile (.kept f) content) := by
  refine ⟨h.replaced, fun g hg hsome => ?_, fun g hg => ?_⟩
  · have hne : Path.kept g ≠ .kept f := by
      intro heq
      obtain rfl := Path.kept.inj heq
      exact hf hg
    simp only [World.setFile, Function.update_of_ne hne]
    exact h.kept g hg hsome
  · simp only [World.setFile, Function.update_of_ne (show Path.live g ≠ .kept f by simp)]
    exact h.live g hg

/-- Noting a file whose copy is kept, or that was not there. -/
theorem Undoable.note {w : World} (h : Undoable before noted w) {f : InstallFile} {src : Option Path}
    (hsrc : (src, .live f) = undoEntry before f)
    (hkept : (before f).isSome → w.files (.kept f) = before f) :
    Undoable before (noted ++ [f]) (w.noteReplaced src f) := by
  refine ⟨?_, fun g hg => ?_, fun g hg => ?_⟩
  · simp [World.noteReplaced, h.replaced, hsrc]
  · rcases List.mem_append.mp hg with hg | hg
    · exact h.kept g hg
    · rw [List.mem_singleton.mp hg]
      exact hkept
  · exact h.live g fun hmem => hg (List.mem_append_left _ hmem)

/-- The exception is an `OSError`, raised in a state with `P`. -/
def RaisedOs (P : World → Prop) (e : Exn) (w : World) : Prop := e.kind = .osError ∧ P w

theorem touch_ensures {P : World → Prop} (op : FileOp) :
    Ensures P (touch env op) (fun _ => P) (RaisedOs P) := by
  unfold touch
  cases env.failure op with
  | none => exact .pure fun _ h => h
  | some failure => exact .throw fun _ h => ⟨rfl, h⟩

/-- A copy to a path that may be written in any state of the invariant keeps it. -/
theorem copy2_undoable {op : FileOp} {src dst : Path}
    (hdst : ∀ w content, Undoable before noted w → Undoable before noted (w.setFile dst content)) :
    Ensures (Undoable before noted) (copy2 env op src dst) (fun _ => Undoable before noted)
      (RaisedOs (Undoable before noted)) :=
  copy2_ensures (fun w _ hw _ => hdst w _ hw) (fun _ _ hw he => ⟨he, hw⟩)
    fun w _ _ hw he => ⟨he, hdst w _ hw⟩

/-- The copy of a file that is there: the copy has its content, or was not made. -/
theorem copy2_keep_ensures {f : InstallFile} (hf : f ∉ noted) :
    Ensures (Undoable before noted) (copy2 env (.keep f) (.live f) (.kept f))
      (fun _ w => Undoable before noted w ∧ w.files (.kept f) = before f)
      (RaisedOs (Undoable before noted)) := by
  refine copy2_ensures (fun w content hw hcontent => ?_) (fun _ _ hw he => ⟨he, hw⟩)
    fun w _ _ hw he => ⟨he, hw.setKept hf _⟩
  refine ⟨hw.setKept hf _, ?_⟩
  rw [← hw.live f hf, hcontent]
  simp [World.setFile]

/-- Keeping a file notes it, or raises with the invariant as it was. -/
theorem keepFile_ensures {f : InstallFile} (hf : f ∉ noted) :
    Ensures (Undoable before noted) (keepFile env f) (fun _ => Undoable before (noted ++ [f]))
      (RaisedOs (Undoable before noted)) := by
  refine .get_bind fun w hw => .pre ?_ fun _ h => h.2
  rw [hw.live f hf]
  by_cases hsome : (before f).isSome
  · rw [if_pos hsome]
    refine (copy2_keep_ensures hf).bind fun _ => .update fun w h => ?_
    exact h.1.note (by simp [undoEntry, hsome]) fun _ => h.2
  · rw [if_neg hsome]
    exact .update fun w h => h.note (by simp [undoEntry, hsome]) fun h => absurd h hsome

/-- Some files are noted, and can be undone. -/
def SomeUndoable (before : InstallFile → Option String) (w : World) : Prop :=
  ∃ noted, Undoable before noted w

/-- Where the files noted so far can be undone, some can. -/
theorem raisedOs_some {e : Exn} {w : World} (h : RaisedOs (Undoable before noted) e w) :
    RaisedOs (SomeUndoable before) e w :=
  ⟨h.1, noted, h.2⟩

theorem placeFile_ensures {f : InstallFile} (hf : f ∉ noted) :
    Ensures (Undoable before noted) (placeFile env f) (fun _ => Undoable before (noted ++ [f]))
      (RaisedOs (SomeUndoable before)) := by
  have hmem : f ∈ noted ++ [f] := by simp
  have hkeep : Ensures (Undoable before noted) (keepFile env f)
      (fun _ => Undoable before (noted ++ [f])) (RaisedOs (SomeUndoable before)) :=
    (keepFile_ensures hf).raises fun _ _ => raisedOs_some
  have htouch : Ensures (Undoable before (noted ++ [f])) (touch env (.makeDir f))
      (fun _ => Undoable before (noted ++ [f])) (RaisedOs (SomeUndoable before)) :=
    (touch_ensures _).raises fun _ _ => raisedOs_some
  have hcopy : Ensures (Undoable before (noted ++ [f]))
      (copy2 env (.place f) (.staged f) (.live f))
      (fun _ => Undoable before (noted ++ [f])) (RaisedOs (SomeUndoable before)) :=
    (copy2_undoable fun _ content h => h.setFile (.inr ⟨f, hmem, rfl⟩) content).raises
      fun _ _ => raisedOs_some
  exact hkeep.bind fun _ => htouch.bind fun _ => hcopy

/-- `.env` is noted before its value is written. -/
theorem writeEnvValue_undoable (hf : .env ∈ noted) (key value : String) :
    Ensures (Undoable before noted) (writeEnvValue env key value) (fun _ => Undoable before noted)
      (RaisedOs (Undoable before noted)) := by
  refine (touch_ensures _).bind fun _ => .get_bind fun w _ => .pre ?_ fun _ h => h.2
  refine (touch_ensures _).bind fun _ => ?_
  refine Ensures.bind (Q := fun _ => Undoable before noted)
    (.update fun _ h => h.setFile (.inl rfl) _) fun _ => ?_
  refine (touch_ensures _).bind fun _ => .update fun _ h => ?_
  exact (h.setFile (.inr ⟨.env, hf, rfl⟩) _).setFile (.inl rfl) _

theorem deployFiles_nodup : deployFiles.Nodup := by decide

/-- **The replacement.** At its end, and wherever it fails, it can be undone. -/
theorem placeFiles_ensures (target : String) :
    Ensures (Undoable before []) (placeFiles env target)
      (fun _ => Undoable before (deployFiles ++ [.env])) (RaisedOs (SomeUndoable before)) := by
  have hloop : Ensures (Undoable before []) (deployFiles.forM (placeFile env))
      (fun _ => Undoable before deployFiles) (RaisedOs (SomeUndoable before)) := by
    refine Ensures.forM (I := fun front _ => Undoable before front) fun front f back hl => ?_
    have hnodup := deployFiles_nodup
    rw [hl] at hnodup
    refine placeFile_ensures fun hmem => ?_
    exact (List.nodup_append.mp hnodup).2.2 f hmem f (List.mem_cons_self ..) rfl
  have hkeep : Ensures (Undoable before deployFiles) (keepFile env .env)
      (fun _ => Undoable before (deployFiles ++ [.env])) (RaisedOs (SomeUndoable before)) :=
    (keepFile_ensures (by decide)).raises fun _ _ => raisedOs_some
  have hwrite : Ensures (Undoable before (deployFiles ++ [.env]))
      (writeEnvValue env versionKey target)
      (fun _ => Undoable before (deployFiles ++ [.env])) (RaisedOs (SomeUndoable before)) :=
    (writeEnvValue_undoable (by decide) _ _).raises fun _ _ => raisedOs_some
  exact hloop.bind fun _ => hkeep.bind fun _ => hwrite

/-- The undo under way: the copies of the files to come are there, the other files are restored. -/
structure Reverting (before : InstallFile → Option String) (rest : List InstallFile) (w : World) :
    Prop where
  kept : ∀ f ∈ rest, (before f).isSome → w.files (.kept f) = before f
  live : ∀ f, f ∉ rest → w.files (.live f) = before f

/-- One file is restored. A file that was not there and was never made raises on its removal, which
is ignored. -/
theorem restoreFile_ensures {f : InstallFile} {rest : List InstallFile} {R : Exn → World → Prop}
    (hundo : env.failure (.restore f) = none) :
    Ensures (Reverting before (f :: rest)) (restoreFile env (undoEntry before f))
      (fun _ => Reverting before rest) R := by
  have hset : ∀ w : World, Reverting before (f :: rest) w →
      Reverting before rest (w.setFile (.live f) (before f)) := by
    refine fun w h => ⟨fun g hg hsome => ?_, fun g hg => ?_⟩
    · simp only [World.setFile, Function.update_of_ne (show Path.kept g ≠ .live f by simp)]
      exact h.kept g (List.mem_cons_of_mem _ hg) hsome
    · by_cases hgf : g = f
      · subst hgf
        simp [World.setFile]
      · have hne : Path.live g ≠ .live f := fun heq => hgf (Path.live.inj heq)
        simp only [World.setFile, Function.update_of_ne hne]
        exact h.live g (by simp [hgf, hg])
  have hsame : ∀ w : World, Reverting before (f :: rest) w → w.files (.live f) = before f →
      Reverting before rest w := by
    refine fun w h hf => ⟨fun g hg => h.kept g (List.mem_cons_of_mem _ hg), fun g hg => ?_⟩
    by_cases hgf : g = f
    · rw [hgf, hf]
    · exact h.live g (by simp [hgf, hg])
  cases hbefore : before f with
  | none =>
    have hentry : undoEntry before f = (none, .live f) := by simp [undoEntry, hbefore]
    rw [hentry]
    refine Ensures.tryCatch (R := fun _ => Reverting before rest) ⟨fun w hw => ?_⟩
      fun _ => .pure fun _ h => h
    have hsetw := hset w hw
    rw [hbefore] at hsetw
    simp only [remove, hundo]
    cases hlive : w.files (.live f) with
    | none => exact hsame w hw (hlive.trans hbefore.symm)
    | some content => exact hsetw
  | some content =>
    have hentry : undoEntry before f = (some (.kept f), .live f) := by simp [undoEntry, hbefore]
    rw [hentry]
    refine Ensures.tryCatch (R := fun _ => Reverting before rest) ⟨fun w hw => ?_⟩
      fun _ => .pure fun _ h => h
    have hkept : w.files (.kept f) = some content := by
      rw [← hbefore]
      exact hw.kept f (List.mem_cons_self ..) (by simp [hbefore])
    have hsetw := hset w hw
    rw [hbefore] at hsetw
    simp only [copy2, hundo, hkept]
    exact hsetw

/-- **The undo.** It restores every file that was noted, and raises nothing. -/
theorem revertInstall_ensures (hundo : ∀ f, env.failure (.restore f) = none)
    {R : Exn → World → Prop} :
    Ensures (SomeUndoable before) (revertInstall env) (fun _ => Untouched before) R := by
  have hloop : ∀ files, Ensures (Reverting before files)
      ((files.map (undoEntry before)).forM (restoreFile env)) (fun _ => Reverting before []) R := by
    intro files
    induction files with
    | nil => exact .pure fun _ h => h
    | cons f files ih => exact (restoreFile_ensures (hundo f)).bind fun _ => ih
  refine .get_bind fun w hw => ?_
  obtain ⟨noted, hw⟩ := hw
  rw [hw.replaced]
  refine Ensures.bind ((hloop noted).pre ?_) fun _ => .update fun w h f => h.live f (by simp)
  rintro w' ⟨rfl, -⟩
  exact ⟨hw.kept, hw.live⟩

end Replacement

/-! ### The check of `/data` -/

/-- The source of a mount is a text, if there is the mount. -/
def ReadableMount (mount : Option (Json × Json)) : Prop := ∀ p ∈ mount, p.2.str?.isSome

/-- Docker answers the two questions of the check of `/data` in `install`: neither command exceeds
its timeout or cannot be started, and what they print has the documented shape. -/
structure DataCheckAnswered (env : Environment) : Prop where
  config : ∀ e, env.fate (.composeConfig .install) ≠ .raises e
  inspect : ∀ e, env.fate (.inspectMounts .install) ≠ .raises e
  rendered : ∀ content dotenv version config, env.render content dotenv version = some config →
    ∃ mount, composeBindSource config "nodeglow" "/data" = .ok mount ∧ ReadableMount mount
  printed : ∀ mounts, env.mounts .install = some mounts →
    ∃ mount, runningMountSource mounts "/data" = .ok mount ∧ ReadableMount mount

section Steps

variable {c : Ctx} {env : Environment} {before : InstallFile → Option String}

theorem rstripSlashes_of_str {j : Json} (h : j.str?.isSome) : ∃ s, rstripSlashes j = .ok s := by
  cases j with
  | str s => exact ⟨_, rfl⟩
  | _ => simp [Json.str?] at h

/-- The comparison of two readable mounts refuses with a `StepError`. -/
theorem compareMounts_kind {wanted current : Option (Json × Json)} (hwanted : ReadableMount wanted)
    (hcurrent : ReadableMount current) {e : Exn} (h : compareMounts wanted current = .error e) :
    e.kind = .stepError := by
  cases wanted with
  | none => simp [compareMounts] at h
  | some wanted =>
    cases current with
    | none => simp [compareMounts] at h
    | some current =>
      obtain ⟨want, hwant⟩ := rstripSlashes_of_str (hwanted wanted rfl)
      obtain ⟨cur, hcur⟩ := rstripSlashes_of_str (hcurrent current rfl)
      simp only [compareMounts, hwant, hcur, bind, Except.bind] at h
      split at h
      · cases h
      · split at h
        · obtain rfl := Except.error.inj h
          rfl
        · cases h

/-- A command that does not raise keeps everything. -/
theorem runCmd_answers {I : World → Prop} {R : Exn → World → Prop} {command : Command}
    (h : ∀ e, env.fate command ≠ .raises e) :
    Ensures I (runCmd env command) (fun _ => I) R := by
  unfold runCmd
  cases hfate : env.fate command with
  | exits code stderr => exact .pure fun _ h => h
  | raises e => exact absurd hfate (h e)

/-- Where docker answers, the check of `/data` raises nothing but a `StepError`. -/
theorem checkDataMount_ensures (hcheck : DataCheckAnswered env) {I : World → Prop} :
    Ensures I (checkDataMount env .install) (fun _ => I) fun e w => e.kind = .stepError ∧ I w := by
  refine Ensures.bind (Q := fun r w => I w ∧ ∀ config, r.2.1 = some config → ∃ content dotenv
      version, env.render content dotenv version = some config) ?_ fun ⟨code, config, stderr⟩ => ?_
  · refine (runCmd_answers hcheck.config).bind fun ⟨code, stderr⟩ => .get_bind fun w hw => ?_
    refine .pure ?_
    rintro w' ⟨-, hw'⟩
    refine ⟨hw', fun config hconfig => ?_⟩
    obtain ⟨content, -, hrender⟩ := Option.bind_eq_some_iff.mp hconfig
    exact ⟨content, _, _, hrender⟩
  · refine .raiseIf_bind (fun _ _ h => ⟨rfl, h.1⟩) fun _ => ?_
    cases config with
    | none => exact .throw fun _ h => ⟨rfl, h.1⟩
    | some config =>
      refine .of_pre (fun _ h => h.2 config rfl) fun hrender => .pre ?_ fun _ h => h.1
      obtain ⟨content, dotenv, version, hrender⟩ := hrender
      obtain ⟨wanted, hwanted, hwantedr⟩ := hcheck.rendered content dotenv version config hrender
      refine liftExcept_bind (fun e he => by simp [hwanted] at he) fun wanted' hwanted' => ?_
      obtain rfl := Except.ok.inj (hwanted.symm.trans hwanted')
      refine (runCmd_answers hcheck.inspect).bind fun ⟨code, stderr⟩ => ?_
      refine .raiseIf_bind (fun _ _ h => ⟨rfl, h⟩) fun _ => ?_
      cases hmounts : env.mounts .install with
      | none => exact .throw fun _ h => ⟨rfl, h⟩
      | some mounts =>
        obtain ⟨current, hcurrent, hcurrentr⟩ := hcheck.printed mounts hmounts
        refine liftExcept_bind (fun e he => by simp [hcurrent] at he) fun current' hcurrent' => ?_
        obtain rfl := Except.ok.inj (hcurrent.symm.trans hcurrent')
        cases hcompare : compareMounts wanted current with
        | ok detail => exact .pure fun _ h => h
        | error e => exact .throw fun _ h => ⟨compareMounts_kind hwantedr hcurrentr hcompare, h⟩

/-- The replacement with its handler: the files can be undone, or they are undone. -/
theorem placeOrRevert_ensures (hundo : ∀ f, env.failure (.restore f) = none) (target : String) :
    Ensures (Undoable before []) (placeOrRevert env target) (fun _ => SomeUndoable before)
      fun _ => Untouched before := by
  refine Ensures.tryCatch ((placeFiles_ensures target).post fun _ _ h => ⟨_, h⟩) fun e => ?_
  refine .of_pre (fun _ h => h.1) fun hkind => .pre ?_ fun _ h => h.2
  rw [if_pos hkind]
  exact (revertInstall_ensures hundo).bind fun _ => .throw fun _ h => h

/-- The check with its handler: where docker answers, a refusal undoes the replacement. -/
theorem recheckDataMount_ensures (hcheck : DataCheckAnswered env)
    (hundo : ∀ f, env.failure (.restore f) = none) :
    Ensures (SomeUndoable before) (recheckDataMount env) (fun _ => SomeUndoable before)
      fun _ => Untouched before := by
  refine Ensures.tryCatch (checkDataMount_ensures hcheck) fun e => ?_
  refine .of_pre (fun _ h => h.1) fun hkind => .pre ?_ fun _ h => h.2
  rw [if_pos hkind]
  exact (revertInstall_ensures hundo).bind fun _ => .throw fun _ h => h

/-- **`install`.** It ends with files that can be undone, or raises with the files as they were. -/
theorem stepInstall_ensures (hcheck : DataCheckAnswered env)
    (hundo : ∀ f, env.failure (.restore f) = none) :
    Ensures (Untouched before) (stepInstall c env) (fun _ => SomeUndoable before)
      fun _ => Untouched before := by
  refine .get_bind fun w _ => .pre ?_ fun _ h => h.2
  cases w.plan.target with
  | none => exact .throw fun _ h => h
  | some target =>
    refine Ensures.bind (Q := fun _ => Undoable before [])
      (.update fun _ h => ⟨rfl, by simp, fun f _ => h f⟩) fun _ => ?_
    refine (placeOrRevert_ensures hundo target).bind fun _ => ?_
    refine (recheckDataMount_ensures hcheck hundo).bind fun data => ?_
    refine Ensures.bind (Q := fun _ => SomeUndoable before) (.update ?_) fun _ => .pure fun _ h => h
    rintro w ⟨noted, h⟩
    exact ⟨noted, h.replaced, h.kept, h.live⟩

/-- **`migrate`.** Whatever it raises, the files are as they were. -/
theorem stepImageMigrate_ensures (hundo : ∀ f, env.failure (.restore f) = none) :
    Ensures (SomeUndoable before) (stepImageMigrate env) (fun _ _ => True)
      fun _ => Untouched before := by
  have hblind : DockerBlind (SomeUndoable before) :=
    fun w images created h => h.imp fun _ h => undoable_dockerBlind w images created h
  have hmigrate : Keeps (SomeUndoable before) (stepMigrate env) := by
    refine (createServices_keeps hblind _ _).bind fun _ => (runCmd_keeps _).bind fun _ => ?_
    exact Keeps.bind (.raiseIf _ _) fun _ => .pure _
  refine Ensures.tryCatch (hmigrate.post fun _ _ _ => trivial)
    fun e => ?_
  exact (revertInstall_ensures hundo).bind fun _ => .throw fun _ h => h

/-- What holds where a step of the run raises. -/
def KeptBefore (before : InstallFile → Option String) (name : StepName) (w : World) : Prop :=
  name.isLate = false → Untouched before w

/-- The steps fit together: up to `install` the files are untouched, and after it they can be
undone. -/
theorem imageSteps_chain (hcheck : DataCheckAnswered env)
    (hundo : ∀ f, env.failure (.restore f) = none) :
    Chain (KeptBefore before) (fun _ => True) (Untouched before) (imageSteps c env) := by
  have hkeeps : ∀ {fn : Action String} (name : StepName), Keeps (Untouched before) fn →
      Ensures (Untouched before) fn (fun _ => Untouched before) fun _ => KeptBefore before name :=
    fun _ h => h.raises fun _ _ h _ => h
  have hlate : ∀ {fn : Action String} (name : StepName), name.isLate = true →
      Ensures (fun _ => True) fn (fun _ _ => True) fun _ => KeptBefore before name := by
    refine fun name hname => ⟨fun w _ => ?_⟩
    split
    · trivial
    · exact fun h => by simp [hname] at h
  refine .cons (hkeeps _ stepImagePreflight_untouched) ?_
  refine .cons (hkeeps _ stepResolve_untouched) (.cons (hkeeps _ stepVerify_untouched) ?_)
  refine .cons (hkeeps _ stepBackup_keeps) (.cons (hkeeps _ stepImagePull_untouched) ?_)
  refine .cons (hkeeps _ stepStage_untouched) ?_
  refine .cons ((stepInstall_ensures hcheck hundo).raises fun _ _ h _ => h) ?_
  refine .cons ((stepImageMigrate_ensures hundo).raises fun _ _ h _ => h) ?_
  exact .cons (hlate _ rfl) (.cons (hlate _ rfl) .nil)

end Steps

/-! ### The installation after a failed update -/

/-- **A failed image update leaves the installation files as they were.** Where docker answers the
check of `/data` in `install`, the operations of the undo succeed, and the state at the end of a
step can be written, a run that fails before the restart leaves every file of the installation as it
was, and has recorded the failure with every later step pending. -/
theorem installation_kept (c : Ctx) (env : Environment) (files : Path → Option String)
    (images : String → Option Image) (hcheck : DataCheckAnswered env)
    (hundo : ∀ f, env.failure (.restore f) = none)
    (hrecord : ∀ name, env.failure (.record (.ended name)) = none) :
    LeavesInstallation files (imageUpdate c env files images) := by
  intro name hstatus hstep hname
  have hall : Chain (KeptBefore fun f => files (.live f)) (fun _ => True)
      (Untouched fun f => files (.live f)) (imageSteps c env) := imageSteps_chain hcheck hundo
  have hchain := hall.execute (w := World.start files images) fun _ => rfl
  have hworld : (imageUpdate c env files images).world =
      (execute (imageSteps c env) (World.start files images)).2 := runSteps_world _ _ _ _ _
  cases hexec : (execute (imageSteps c env) (World.start files images)).1 with
  | none =>
    have hdone := runSteps_status_of_execute env hexec
      (UpdateState.new c.runId ((imageSteps c env).map Prod.fst) (env.now .start))
      (writeState env .start
        (UpdateState.new c.runId ((imageSteps c env).map Prod.fst) (env.now .start)) none)
    rw [imageUpdate, runUpdate, hdone] at hstatus
    cases hstatus
  | some failed =>
    have hnodup : ((imageSteps c env).map Prod.fst).Nodup := by
      rw [imageSteps_names]
      exact imageStepNames_nodup
    obtain ⟨hfailed, earlier, hwritten⟩ := runUpdate_failedAt c env hexec hnodup
    rw [imageSteps_names] at hfailed
    have heq : failed = name := Option.some.inj (hfailed.2.1.symm.trans hstep)
    subst heq
    rw [hexec] at hchain
    refine ⟨fun f => ?_, (imageUpdate c env files images).state, ?_, hfailed⟩
    · rw [hworld]
      exact hchain hname f
    · rw [imageUpdate, hwritten, writeState, hrecord failed]
      rfl

/-- Every command exits with success but the given one. -/
def sampleFate (command : Command) (fate : Fate) (command' : Command) : Fate :=
  if command' = command then fate else .exits 0 ""

theorem sampleEnvironment_answered {fate : Command → Fate} (registry : String → Option Image)
    (hconfig : ∀ e, fate (.composeConfig .install) ≠ .raises e)
    (hinspect : ∀ e, fate (.inspectMounts .install) ≠ .raises e) :
    DataCheckAnswered (sampleEnvironment fate registry) where
  config := hconfig
  inspect := hinspect
  rendered := by
    rintro content dotenv version config h
    obtain rfl := Option.some.inj h
    exact ⟨_, rfl, by rintro p ⟨⟩; rfl⟩
  printed := by
    rintro mounts h
    obtain rfl := Option.some.inj h
    exact ⟨_, rfl, by rintro p ⟨⟩; rfl⟩

/-- A run without verification in which one command ends as given and the others succeed. -/
def sampleRun (command : Command) (fate : Fate) : Outcome :=
  imageUpdate { sampleCtx with verify := false }
    (sampleEnvironment (sampleFate command fate) fun _ => some (sampleImage "ghcr.io/jubacch"))
    sampleFiles fun _ => none

/-- The migration fails, and the installation is as it was. -/
theorem installation_kept_migration_fails :
    let out := sampleRun .composeRun (.exits 1 "")
    (out.state.status = .failed ∧ out.state.step = some .migrate) ∧
      LeavesInstallation sampleFiles out := by
  refine ⟨by decide +kernel, ?_⟩
  refine installation_kept _ _ _ _ (sampleEnvironment_answered _ ?_ ?_) (fun _ => rfl) fun _ => rfl
  · rintro e ⟨⟩
  · rintro e ⟨⟩

/-- **Files of a failed update.** The check of `/data` in `install` runs into its timeout: the run
has failed, and the new compose file, the ClickHouse files and the new version are in place. -/
theorem new_files_after_timeout :
    ¬LeavesInstallation sampleFiles (sampleRun (.composeConfig .install)
      (.raises ⟨.timeoutExpired, "Command 'docker compose config' timed out"⟩)) := by
  intro h
  have hrun : ∀ out, out = sampleRun (.composeConfig .install)
        (.raises ⟨.timeoutExpired, "Command 'docker compose config' timed out"⟩) →
      (out.state.status = .failed ∧ out.state.step = some .install) ∧
        out.world.files (.live .env) ≠ sampleFiles (.live .env) := by
    rintro _ rfl
    decide +kernel
  obtain ⟨⟨hstatus, hstep⟩, henv⟩ := hrun _ rfl
  exact henv ((h .install hstatus hstep rfl).1 .env)

end Nodeglow.Sidecar
