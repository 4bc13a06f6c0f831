import Nodeglow.Foundation.Effect
import Nodeglow.Sidecar.Releases

/-!
# The update orchestrator

The update runs as a sequence of steps (`run_update`): the first step that raises an exception ends
the run, and the state of the run is mirrored to a file after every change. A step sees the
installation directory, the docker daemon with its local images, and the plan of the run.

What the outside world does is an argument of the model, the `Environment`: it says for every
command whether it runs into its timeout or exits, and with which code; for every operation on
files whether it fails and what it leaves behind; and for every moment what the registry serves.
A run performs each of the listed operations at most once, so that an answer for each operation is
an answer for each moment. Docker itself is modelled as it is documented: `compose` resolves the
images of the services from the compose file, `.env` and the environment variables, a container is
created from the local image of a reference, and the reference is pulled only when it is missing.

Source: `sidecar/orchestrator.py`, `sidecar/update-server.py`.
-/

namespace Nodeglow.Sidecar

open Effect

/-! ### Exceptions -/

/-- The kinds of exceptions that reach the steps. -/
inductive ExnKind
  | stepError
  | osError
  | timeoutExpired
  | valueError
  | attributeError
  | typeError
  | keyError
deriving DecidableEq, Repr

/-- An exception with its text. -/
structure Exn where
  kind : ExnKind
  text : String
deriving DecidableEq, Repr

/-- `StepError(text)`. -/
def stepError (text : String) : Exn := ⟨.stepError, text⟩

def maxErrorChars : ℕ := 500

/-! ### Names -/

/-- The steps of an update in image mode. -/
inductive StepName
  | preflight | resolve | verify | backup | pull | stage | install | migrate | restart | handoff
deriving DecidableEq, Repr

/-- The name of a step in the state file. -/
def StepName.name : StepName → String
  | preflight => "preflight"
  | resolve => "resolve"
  | verify => "verify"
  | backup => "backup"
  | pull => "pull"
  | stage => "stage"
  | install => "install"
  | migrate => "migrate"
  | restart => "restart"
  | handoff => "handoff"

/-- The services with images of Nodeglow's own. -/
inductive Service
  | nodeglow | frontend | updater
deriving DecidableEq, Repr

/-- The name of a service in the compose file. -/
def Service.name : Service → String
  | nodeglow => "nodeglow"
  | frontend => "frontend"
  | updater => "updater"

/-- `BUILD_SERVICES`. -/
def buildServices : List Service := [.nodeglow, .frontend]

/-- The files of an installation that an update replaces: `DEPLOY_FILES` and `.env`. -/
inductive InstallFile
  | compose | clickhouseConfig | clickhouseInit | env
deriving DecidableEq, Repr

/-- The path of a file below the installation directory. -/
def InstallFile.path : InstallFile → String
  | compose => "docker-compose.yml"
  | clickhouseConfig => "clickhouse/config.xml"
  | clickhouseInit => "clickhouse/init.sql"
  | env => ".env"

/-- A file: in place, its copy with the suffix `.bak-` and the id of the run, the one staged from
the release, and the temporary file of `.env`. -/
inductive Path
  | live (f : InstallFile)
  | kept (f : InstallFile)
  | staged (f : InstallFile)
  | envTmp
deriving DecidableEq, Repr

/-! ### The outside world -/

/-- An image: the digests under which docker knows it, and the deploy files baked into it. -/
structure Image where
  repoDigests : List String
  deploy : InstallFile → Option String

/-- The commands of a run that can fail. -/
inductive Command
  | inspectDatabase
  | composeConfig (s : StepName)
  | inspectMounts (s : StepName)
  | cosignVerify (s : Service)
  | composePull
  | inspectImage (ref : String)
  | dockerCreate
  | dockerCp
  | dockerRm
  | renderStaged
  | composeRun
  | composeUp
  | dockerRun
  | handoffUp
deriving DecidableEq, Repr

/-- How a command ends: with an exit code and what it wrote to stderr, or with an exception of
`subprocess.run` (its timeout, or a program that cannot be started). -/
inductive Fate
  | exits (code : ℤ) (stderr : String)
  | raises (e : Exn)
deriving DecidableEq, Repr

/-- Whether what the command was to do may have been done. -/
def Fate.mayHaveRun : Fate → Bool
  | exits code _ => code = 0
  | raises _ => true

/-- The moments at which `write_state` mirrors the state. -/
inductive RecordPoint
  | start
  | running (s : StepName)
  | ended (s : StepName)
  | done
deriving DecidableEq, Repr

/-- The operations on files of a run that can fail. -/
inductive FileOp
  | makeBackupDir
  | clearStaged (s : StepName) (f : InstallFile)
  | makeStagingDir
  | keep (f : InstallFile)
  | makeDir (f : InstallFile)
  | place (f : InstallFile)
  | readEnv
  | writeEnvTmp
  | replaceEnv
  | restore (f : InstallFile)
  | record (p : RecordPoint)
deriving DecidableEq, Repr

/-- A failed operation: the text of the `OSError`, and the content it leaves in the file it was
writing. Without a content the file is as it was. -/
structure Failure where
  text : String
  left : Option String
deriving DecidableEq, Repr

/-- The output of a command that prints JSON: a document, or a text that is none. -/
abbrev Output := Option Json

/-- The output of a command as text, with the document that the text is, if it is one. -/
structure Printed where
  text : String
  json : Output

/-- What the outside world answers during one run. -/
structure Environment where
  /-- How a command ends. -/
  fate : Command → Fate
  /-- Whether an operation on files fails. -/
  failure : FileOp → Option Failure
  /-- What the registry serves for a reference while a command runs. -/
  registry : Command → String → Option Image
  /-- What `docker compose config` prints for a compose file, `.env` and `NODEGLOW_VERSION`. -/
  render : String → Option String → Option String → Output
  /-- What `docker inspect` prints of the mounts of the running application. -/
  mounts : StepName → Output
  /-- What a command that prints text writes to stdout. -/
  stdout : Command → String
  /-- What `cosign verify` prints. -/
  cosignOutput : Service → Printed
  /-- What the releases URL answers. -/
  releases : Except Exn Json
  /-- How `pg_dump` ends: its exit code, the size of the dump, and what it wrote to stderr. -/
  dump : Except Exn (ℤ × ℕ × String)
  /-- The free bytes on the disk of the installation. -/
  diskFree : Except Exn ℕ
  /-- Whether the docker socket is there, and the program `cosign`. -/
  dockerSocket : Bool
  cosignFound : Bool
  /-- `NODEGLOW_VERSION` in the environment of the sidecar. -/
  versionVariable : String
  /-- The time of `now()` at a moment of the run. -/
  now : RecordPoint → String
  /-- The number of dumps that `prune_backups` keeps. -/
  backupsKept : ℕ

/-- What is fixed for a run: `Ctx` and the settings of the sidecar. -/
structure Ctx where
  composeProject : String
  composeFile : String
  dbContainer : String
  projectDir : String
  runId : String
  releasesUrl : String
  allowPrerelease : Bool
  verify : Bool

/-- `ctx.plan`. -/
structure Plan where
  current : Option String
  target : Option String
  images : List (Service × String)
  digests : List (String × String)
  replaced : List (Option Path × Path)

/-- What a run works on. -/
structure World where
  files : Path → Option String
  /-- The local images of the docker daemon. -/
  images : String → Option Image
  plan : Plan
  /-- `NODEGLOW_VERSION` in `compose_env`, once it is set. -/
  composeEnv : Option String
  /-- The images from which the run has created containers. -/
  created : List Image

/-- A computation of a step. -/
abbrev Action := EStateM Exn World

/-- The state in which a run starts. -/
def World.start (files : Path → Option String) (images : String → Option Image) : World :=
  { files := files
    images := images
    plan := { current := none, target := none, images := [], digests := [], replaced := [] }
    composeEnv := none
    created := [] }

/-- The state with another content of one file. -/
def World.setFile (w : World) (p : Path) (content : Option String) : World :=
  { w with files := Function.update w.files p content }

/-! ### Operations -/

section Operations

variable (env : Environment)

/-- The result of a command: its exit code and what it wrote to stderr. -/
def runCmd (command : Command) : Action (ℤ × String) :=
  match env.fate command with
  | .exits code stderr => pure (code, stderr)
  | .raises e => throw e

/-- An operation on files that leaves the files as they are, or fails. -/
def touch (op : FileOp) : Action Unit :=
  match env.failure op with
  | none => pure ()
  | some failure => throw ⟨.osError, failure.text⟩

/-- `shutil.copy2`: the content of one file to another. A failed copy can leave a part of it. -/
def copy2 (op : FileOp) (src dst : Path) : Action Unit := fun w =>
  match env.failure op, w.files src with
  | none, some content => .ok () (w.setFile dst content)
  | none, none => .error ⟨.osError, "No such file or directory"⟩ w
  | some failure, _ =>
    .error ⟨.osError, failure.text⟩ (failure.left.elim w fun part => w.setFile dst (some part))

/-- `os.remove`. -/
def remove (op : FileOp) (path : Path) : Action Unit := fun w =>
  match env.failure op, w.files path with
  | none, some _ => .ok () (w.setFile path none)
  | none, none => .error ⟨.osError, "No such file or directory"⟩ w
  | some failure, _ => .error ⟨.osError, failure.text⟩ w

/-- What compose resolves from the files in place. Without a compose file there is nothing. -/
def composed (w : World) : Output :=
  (w.files (.live .compose)).bind fun content =>
    env.render content (w.files (.live .env)) w.composeEnv

/-- The image of a service in what compose resolves, `services.<name>.image`. -/
def serviceImage (config : Json) (service : Service) : Option Json :=
  ((config.get? "services").bind fun services => services.get? service.name).bind fun s =>
    s.get? "image"

/-- The reference under which compose starts a service. -/
def composeImage (w : World) (service : Service) : Option String :=
  ((composed env w).bind fun config => serviceImage config service).bind Json.str?

/-- `docker compose config --format json`, in a given step. It fails without a compose file. -/
def composeConfig (step : StepName) : Action (ℤ × Output × String) := do
  let (code, stderr) ← runCmd env (.composeConfig step)
  let w ← get
  pure (if (w.files (.live .compose)).isNone && code = 0 then 1 else code, composed env w, stderr)

/-- The local image of a reference; a missing one is pulled. -/
def ensureImage (command : Command) (ref : String) : Action (Option Image) := fun w =>
  match w.images ref with
  | some image => .ok (some image) w
  | none =>
    match env.registry command ref with
    | none => .ok none w
    | some image => .ok (some image) { w with images := Function.update w.images ref (some image) }

/-- Docker creates a container from a reference. Where there is no image there is no container. -/
def createContainer (command : Command) (ref : String) : Action (Option Image) := do
  let image ← ensureImage env command ref
  match image with
  | none => pure none
  | some image =>
    modify fun w => { w with created := image :: w.created }
    pure (some image)

/-- Compose creates containers for services from the images the compose file names. -/
def createServices (command : Command) : List Service → Action Unit
  | [] => pure ()
  | service :: services => do
    let w ← get
    match composeImage env w service with
    | none => createServices command services
    | some ref =>
      let _ ← createContainer env command ref
      createServices command services

/-- `docker compose pull`: what the registry serves becomes the local image of the reference. -/
def pullServices : List Service → Action Unit
  | [] => pure ()
  | service :: services => do
    let w ← get
    match (composeImage env w service).bind fun ref =>
        (env.registry .composePull ref).map fun image => (ref, image) with
    | none => pullServices services
    | some (ref, image) =>
      modify fun w => { w with images := Function.update w.images ref (some image) }
      pullServices services

end Operations

/-! ### The state of a run -/

/-- The status of a step. -/
inductive StepStatus
  | pending | running | ok | failed
deriving DecidableEq, Repr

structure Step where
  name : StepName
  status : StepStatus
  detail : Option String
deriving DecidableEq, Repr

/-- The status of a run. -/
inductive RunStatus
  | running | done | failed
deriving DecidableEq, Repr

structure UpdateState where
  runId : String
  status : RunStatus
  step : Option StepName
  steps : List Step
  startedAt : String
  finishedAt : Option String
  error : Option String
deriving DecidableEq, Repr

namespace UpdateState

/-- `UpdateState.new`. -/
def new (runId : String) (names : List StepName) (startedAt : String) : UpdateState :=
  { runId := runId
    status := .running
    step := none
    steps := names.map fun name => ⟨name, .pending, none⟩
    startedAt := startedAt
    finishedAt := none
    error := none }

/-- The steps after a change of the first one with the given name, `by_name`. -/
def setByName (name : StepName) (f : Step → Step) : List Step → List Step
  | [] => []
  | step :: steps => if step.name = name then f step :: steps else step :: setByName name f steps

/-- The state with a change of the step with the given name. -/
def setStep (state : UpdateState) (name : StepName) (f : Step → Step) : UpdateState :=
  { state with steps := setByName name f state.steps }

end UpdateState

section Runner

variable (c : Ctx) (env : Environment)

/-- `write_state`: what the run has recorded on disk after it mirrors its state at a moment. The
replacement of the file is atomic, so that a failed write leaves what was recorded before. -/
def writeState (p : RecordPoint) (state : UpdateState) (recorded : Option UpdateState) :
    Option UpdateState :=
  if (env.failure (.record p)).isNone then some state else recorded

/-- The result of a run: its final state, what it has recorded on disk, and what it worked on. -/
structure Outcome where
  state : UpdateState
  recorded : Option UpdateState
  world : World

/-- The loop of `run_update` over the steps that are left. -/
def runSteps : List (StepName × Action String) → UpdateState → Option UpdateState → World → Outcome
  | [], state, recorded, w =>
    let state := { state with step := none, status := .done, finishedAt := some (env.now .done) }
    ⟨state, writeState env .done state recorded, w⟩
  | (name, fn) :: rest, state, recorded, w =>
    let state := { state with step := some name }.setStep name fun s => { s with status := .running }
    let recorded := writeState env (.running name) state recorded
    match fn w with
    | .error e w =>
      let state := { state.setStep name fun s => { s with status := .failed } with
        status := .failed
        error := some (name.name ++ ": " ++ Text.lastChars maxErrorChars e.text)
        finishedAt := some (env.now (.ended name)) }
      ⟨state, writeState env (.ended name) state recorded, w⟩
    | .ok detail w =>
      let state := state.setStep name fun s => { s with status := .ok, detail := some detail }
      runSteps rest state (writeState env (.ended name) state recorded) w

/-- `run_update`. The record holds what this run has written: nothing at its start. -/
def runUpdate (steps : List (StepName × Action String)) (w : World) : Outcome :=
  let state := UpdateState.new c.runId (steps.map Prod.fst) (env.now .start)
  runSteps env steps state (writeState env .start state none) w

end Runner

/-! ### What a run does -/

section Runs

variable (c : Ctx) (env : Environment)

/-- The steps one after the other: the one that raised, if any, and the state at the end. -/
def execute : List (StepName × Action String) → World → Option StepName × World
  | [], w => (none, w)
  | (name, fn) :: rest, w =>
    match fn w with
    | .error _ w => (some name, w)
    | .ok _ w => execute rest w

/-- The state of a run whose steps were done up to `name`, which failed; the later ones are
pending. -/
def UpdateState.FailedAt (state : UpdateState) (names : List StepName) (name : StepName) : Prop :=
  state.status = .failed ∧ state.step = some name ∧
    ∃ front back, names = front ++ name :: back ∧
      state.steps.map (fun s => (s.name, s.status)) =
        front.map (·, .ok) ++ (name, .failed) :: back.map (·, .pending)

theorem setByName_append {name : StepName} (f : Step → Step) {front : List Step} {step : Step}
    (back : List Step) (hfront : ∀ s ∈ front, s.name ≠ name) (hstep : step.name = name) :
    UpdateState.setByName name f (front ++ step :: back) = front ++ f step :: back := by
  induction front with
  | nil => simp [UpdateState.setByName, hstep]
  | cons s front ih =>
    obtain ⟨hs, hfront⟩ := List.forall_mem_cons.mp hfront
    simp [UpdateState.setByName, hs, ih hfront]

theorem runSteps_world (steps : List (StepName × Action String)) (state : UpdateState)
    (recorded : Option UpdateState) (w : World) :
    (runSteps env steps state recorded w).world = (execute steps w).2 := by
  induction steps generalizing state recorded w with
  | nil => rfl
  | cons p rest ih =>
    obtain ⟨name, fn⟩ := p
    simp only [runSteps, execute]
    cases fn w with
    | ok detail w' => exact ih _ _ _
    | error e w' => rfl

/-- A run that does not fail has done all its steps. -/
theorem runSteps_status_of_execute {steps : List (StepName × Action String)} {w : World}
    (h : (execute steps w).1 = none) (state : UpdateState) (recorded : Option UpdateState) :
    (runSteps env steps state recorded w).state.status = .done := by
  induction steps generalizing state recorded w with
  | nil => rfl
  | cons p rest ih =>
    obtain ⟨name, fn⟩ := p
    simp only [runSteps, execute] at h ⊢
    cases hfn : fn w with
    | ok detail w' =>
      simp only [hfn] at h ⊢
      exact ih h _ _
    | error e w' => simp [hfn] at h

/-- **A failed run.** The step that raised is failed, those before it are done, and those after it
are pending; the failure is the last thing the run mirrors to its file. -/
theorem runSteps_failedAt {steps : List (StepName × Action String)} {w : World} {name : StepName}
    (h : (execute steps w).1 = some name) (state : UpdateState) (recorded : Option UpdateState)
    (front : List Step)
    (hsteps : state.steps = front ++ steps.map fun p => ⟨p.1, .pending, none⟩)
    (hfront : ∀ s ∈ front, s.status = .ok)
    (hnodup : (front.map Step.name ++ steps.map Prod.fst).Nodup) :
    let out := runSteps env steps state recorded w
    out.state.FailedAt (front.map Step.name ++ steps.map Prod.fst) name ∧
      ∃ earlier, out.recorded = writeState env (.ended name) out.state earlier := by
  induction steps generalizing state recorded w front with
  | nil => simp [execute] at h
  | cons p rest ih =>
    obtain ⟨this, fn⟩ := p
    have hne : ∀ s ∈ front, s.name ≠ this := by
      intro s hs hsn
      rw [List.nodup_append] at hnodup
      exact hnodup.2.2 s.name (List.mem_map_of_mem hs) this (by simp) hsn
    simp only [runSteps, execute, List.map_cons] at h hsteps ⊢
    -- the step is set to running, and then to its result
    have hset : ∀ f : Step → Step,
        UpdateState.setByName this f (UpdateState.setByName this
          (fun s => { s with status := .running }) state.steps) =
        front ++ f ⟨this, .running, none⟩ :: rest.map fun p => ⟨p.1, .pending, none⟩ := by
      intro f
      rw [hsteps, setByName_append _ _ hne rfl, setByName_append _ _ hne rfl]
    cases hfn : fn w with
    | error e w' =>
      simp only [hfn, Option.some.injEq] at h
      subst h
      refine ⟨⟨rfl, rfl, front.map Step.name, rest.map Prod.fst, rfl, ?_⟩, _, rfl⟩
      change (UpdateState.setByName this _ (UpdateState.setByName this _ state.steps)).map _ = _
      rw [hset]
      have hok : front.map (fun s => (s.name, s.status)) =
          (front.map Step.name).map (·, StepStatus.ok) := by
        rw [List.map_map]
        exact List.map_congr_left fun s hs => by simp [hfront s hs]
      simp [hok, List.map_map, Function.comp_def]
    | ok detail w' =>
      simp only [hfn] at h
      have hnames : front.map Step.name ++ this :: rest.map Prod.fst =
          (front ++ [(⟨this, .ok, some detail⟩ : Step)]).map Step.name ++ rest.map Prod.fst := by
        simp
      rw [List.map_cons, hnames] at hnodup
      rw [hnames]
      refine ih h _ _ (front ++ [⟨this, .ok, some detail⟩]) ?_ ?_ hnodup
      · change UpdateState.setByName this _ (UpdateState.setByName this _ state.steps) = _
        rw [hset]
        simp
      · intro s hs
        rcases List.mem_append.mp hs with hs | hs
        · exact hfront s hs
        · rw [List.mem_singleton.mp hs]

/-- A failed run of all steps, as `run_update` starts it. -/
theorem runUpdate_failedAt {steps : List (StepName × Action String)} {w : World} {name : StepName}
    (h : (execute steps w).1 = some name) (hnodup : (steps.map Prod.fst).Nodup) :
    let out := runUpdate c env steps w
    out.state.FailedAt (steps.map Prod.fst) name ∧
      ∃ earlier, out.recorded = writeState env (.ended name) out.state earlier := by
  have hsteps : (UpdateState.new c.runId (steps.map Prod.fst) (env.now .start)).steps =
      [] ++ steps.map fun p => ⟨p.1, .pending, none⟩ := by
    simp [UpdateState.new, Function.comp_def]
  exact runSteps_failedAt env h _ _ [] hsteps (by simp) (by simpa using hnodup)

/-- Steps that fit together: each begins where the one before it ends, and `R` holds where it
raises. -/
inductive Chain (R : StepName → World → Prop) (Q : World → Prop) :
    (World → Prop) → List (StepName × Action String) → Prop
  | nil : Chain R Q Q []
  | cons {P S : World → Prop} {name : StepName} {fn : Action String}
      {rest : List (StepName × Action String)}
      (h : Ensures P fn (fun _ => S) fun _ => R name) (hrest : Chain R Q S rest) :
      Chain R Q P ((name, fn) :: rest)

/-- **The rule for runs.** What the steps ensure where one of them raises holds after a failed run,
and what the last one ensures holds after a run that is done. -/
theorem Chain.execute {R : StepName → World → Prop} {Q P : World → Prop}
    {steps : List (StepName × Action String)} (h : Chain R Q P steps) {w : World} (hw : P w) :
    (execute steps w).1.elim (Q (execute steps w).2) fun name => R name (execute steps w).2 := by
  induction h generalizing w with
  | nil => exact hw
  | @cons _ _ name fn rest h _ ih =>
    have hfn := h.run w hw
    rw [Sidecar.execute]
    cases hw' : fn w with
    | ok detail w' =>
      simp only [hw'] at hfn ⊢
      exact ih hfn
    | error e w' =>
      simp only [hw'] at hfn ⊢
      exact hfn

end Runs

/-! ### The steps that both modes share -/

section Steps

variable (c : Ctx) (env : Environment)

/-- The JSON value of `config.get("services", {})` and the like: what is no object has no `get`. -/
def getOr (j : Json) (key : String) (default : Json) : Except Exn Json :=
  match j with
  | .obj _ => .ok ((j.get? key).getD default)
  | _ => .error ⟨.attributeError, "object has no attribute 'get'"⟩

/-- The items that a Python loop over a JSON value goes through. -/
def iterate : Json → Except Exn (List Json)
  | .arr items => .ok items
  | .obj fields => .ok (fields.map fun p => .str p.1)
  | .str s => .ok (s.toList.map fun ch => .str (String.singleton ch))
  | _ => .error ⟨.typeError, "object is not iterable"⟩

/-- `_compose_bind_source`: type and source of the volume a service mounts at `target`. -/
def composeBindSource (config : Json) (service target : String) :
    Except Exn (Option (Json × Json)) := do
  let services ← getOr config "services" (.obj [])
  let entry ← getOr services service (.obj [])
  let volumes ← getOr (if entry.truthy then entry else .obj []) "volumes" (.arr [])
  let items ← iterate (if volumes.truthy then volumes else .arr [])
  pure <| (items.find? fun vol => ((vol.get? "target").bind Json.str?) = some target).map fun vol =>
    ((vol.get? "type").getD (.str ""), (vol.get? "source").getD (.str ""))

/-- The loop of `_running_mount_source` over the mounts. -/
def findMount (target : String) : List Json → Except Exn (Option (Json × Json))
  | [] => .ok none
  | m :: ms => do
    let destination ← getOr m "Destination" .null
    if destination.str? = some target then
      pure (some ((m.get? "Type").getD (.str ""), (m.get? "Source").getD (.str "")))
    else findMount target ms

/-- `_running_mount_source`. -/
def runningMountSource (mounts : Json) (target : String) : Except Exn (Option (Json × Json)) := do
  let items ← iterate (if mounts.truthy then mounts else .arr [])
  findMount target items

/-- The text of a source without the slashes at its end; only a text has `rstrip`. -/
def rstripSlashes : Json → Except Exn String
  | .str s => .ok (Text.dropMatchesRight (· == '/') s)
  | _ => .error ⟨.attributeError, "object has no attribute 'rstrip'"⟩

/-- The type of a mount as the messages show it. -/
def mountType (kind other : Json) : String := ((if kind.truthy then kind else other).str?).getD ""

/-- `check_data_mount` after the two questions: the comparison of the mounts. -/
def compareMounts (wanted current : Option (Json × Json)) : Except Exn String :=
  match wanted, current with
  | some (wantKind, wantSource), some (curKind, curSource) =>
    if wantKind.str? ≠ some "bind" || curKind.str? ≠ some "bind" then
      .ok ("/data is a " ++ mountType wantKind curKind ++ " mount, not compared")
    else do
      let want ← rstripSlashes wantSource
      let cur ← rstripSlashes curSource
      if want ≠ cur then
        .error (stepError ("Refusing to update: compose would mount " ++ want ++
          " as /data, but the running container uses " ++ cur ++
          ". The update would start on the wrong data directory. Set HOST_PROJECT_DIR to the " ++
          "directory the stack was started from (see docs/OPERATIONS.md, 'Updater: host paths')."))
      else pure ("/data from " ++ cur)
  | _, _ => .ok "no /data mount to compare"

/-- A pure computation as an action. -/
def liftExcept {α : Type} : Except Exn α → Action α
  | .ok a => pure a
  | .error e => throw e

/-- `check_data_mount`, in the step that makes the check. -/
def checkDataMount (step : StepName) : Action String := do
  let (code, config, stderr) ← composeConfig env step
  raiseIf (code ≠ 0)
    (stepError ("docker compose config failed: " ++ Text.lastChars maxErrorChars stderr))
  match config with
  | none => throw (stepError "docker compose config returned no JSON")
  | some config =>
    let wanted ← liftExcept (composeBindSource config "nodeglow" "/data")
    let (code, stderr) ← runCmd env (.inspectMounts step)
    raiseIf (code ≠ 0) (stepError ("Cannot inspect the running nodeglow container: " ++
      Text.lastChars maxErrorChars stderr))
    match env.mounts step with
    | none => throw (stepError "Unreadable mounts of nodeglow")
    | some mounts =>
      let current ← liftExcept (runningMountSource mounts "/data")
      liftExcept (compareMounts wanted current)

/-- A quotient with one decimal, a half rounded to the even digit. -/
def oneDecimal (n d : ℕ) : String :=
  let tenths := 10 * n / d
  let rest := 10 * n % d
  let rounded := if d < 2 * rest || (2 * rest = d && tenths % 2 = 1) then tenths + 1 else tenths
  toString (rounded / 10) ++ "." ++ toString (rounded % 10)

/-- `step_backup`: `dump_database` with the pre-update prefix. -/
def stepBackup : Action String := do
  raiseIf (c.dbContainer = "")
    (stepError "Database container not resolved; set DB_CONTAINER in .env")
  tryCatch (touch env .makeBackupDir) fun e =>
    throw (stepError ("Backup directory unavailable: " ++ e.text))
  let (code, size, stderr) ← liftExcept env.dump
  raiseIf (code ≠ 0) (stepError ("pg_dump failed: " ++ Text.lastChars maxErrorChars stderr))
  let stamp := String.ofList
    ((env.now (.running .backup)).toList.map fun ch => if ch = ':' then '-' else ch)
  pure ("pre-update-" ++ stamp ++ ".dump.gz (" ++ oneDecimal size (1024 ^ 2) ++ " MB), pruned " ++
    toString env.backupsKept ++ " kept")

/-- `step_migrate`: a throwaway container of the application runs the migrations. -/
def stepMigrate : Action String := do
  createServices env .composeRun [.nodeglow]
  let (code, stderr) ← runCmd env .composeRun
  raiseIf (code ≠ 0) (stepError ("migration failed: " ++ Text.lastChars maxErrorChars stderr))
  let lines := ((Text.splitLines (env.stdout .composeRun ++ "\n" ++ stderr)).map Text.strip).filter
    (· ≠ "")
  pure ((lines.getLast?.map (Text.lastChars 200)).getD "schema at head")

/-- `step_restart`: the containers of the application are created anew. -/
def stepRestart : Action String := do
  createServices env .composeUp buildServices
  let (code, stderr) ← runCmd env .composeUp
  raiseIf (code ≠ 0)
    (stepError ("docker compose up failed: " ++ Text.lastChars maxErrorChars stderr))
  pure (", ".intercalate (buildServices.map Service.name) ++ " restarted")

end Steps

/-! ### What leaves the state alone -/

section Frame

variable {c : Ctx} {env : Environment} {I : World → Prop}

theorem runCmd_keeps (command : Command) : Keeps I (runCmd env command) := by
  unfold runCmd
  cases env.fate command with
  | exits code stderr => exact .pure _
  | raises e => exact .throw e

theorem touch_keeps (op : FileOp) : Keeps I (touch env op) := by
  unfold touch
  cases env.failure op with
  | none => exact .pure _
  | some failure => exact .throw _

theorem liftExcept_keeps {α : Type} (x : Except Exn α) : Keeps I (liftExcept x) := by
  cases x with
  | ok a => exact .pure a
  | error e => exact .throw e

/-- **A copy.** Its source was there, or it raises an `OSError` and may leave a part. -/
theorem copy2_ensures {op : FileOp} {src dst : Path} {P : World → Prop} {Q : Unit → World → Prop}
    {R : Exn → World → Prop}
    (hok : ∀ w content, P w → w.files src = some content → Q () (w.setFile dst (some content)))
    (hsame : ∀ w e, P w → e.kind = .osError → R e w)
    (hpart : ∀ w e part, P w → e.kind = .osError → R e (w.setFile dst (some part))) :
    Ensures P (copy2 env op src dst) Q R := by
  refine ⟨fun w hw => ?_⟩
  unfold copy2
  cases hfailure : env.failure op with
  | none =>
    cases hsrc : w.files src with
    | none => exact hsame w _ hw rfl
    | some content => exact hok w content hw hsrc
  | some failure =>
    cases hleft : failure.left with
    | none =>
      simp only [hleft, Option.elim_none]
      exact hsame w _ hw rfl
    | some part =>
      simp only [hleft, Option.elim_some]
      exact hpart w _ part hw rfl

/-- A pure computation that goes on with its value. -/
theorem liftExcept_bind {α β : Type} {x : Except Exn α} {f : α → Action β} {P : World → Prop}
    {Q : β → World → Prop} {R : Exn → World → Prop}
    (herror : ∀ e, x = .error e → ∀ w, P w → R e w)
    (hok : ∀ a, x = .ok a → Ensures P (f a) Q R) : Ensures P (liftExcept x >>= f) Q R := by
  cases x with
  | ok a => exact ⟨(hok a rfl).run⟩
  | error e => exact ⟨herror e rfl⟩

theorem composeConfig_keeps (step : StepName) : Keeps I (composeConfig env step) :=
  (runCmd_keeps _).bind fun _ => Keeps.get.bind fun _ => .pure _

theorem checkDataMount_keeps (step : StepName) : Keeps I (checkDataMount env step) := by
  refine (composeConfig_keeps step).bind fun ⟨code, config, stderr⟩ => ?_
  refine (Keeps.raiseIf _ _).bind fun _ => ?_
  cases config with
  | none => exact .throw _
  | some config =>
    refine (liftExcept_keeps _).bind fun wanted => (runCmd_keeps _).bind fun _ => ?_
    refine (Keeps.raiseIf _ _).bind fun _ => ?_
    cases env.mounts step with
    | none => exact .throw _
    | some mounts => exact (liftExcept_keeps _).bind fun _ => liftExcept_keeps _

theorem stepBackup_keeps : Keeps I (stepBackup c env) := by
  refine (Keeps.raiseIf _ _).bind fun _ => ?_
  refine ((touch_keeps _).tryCatch fun e => .throw _).bind fun _ => ?_
  exact (liftExcept_keeps _).bind fun _ => (Keeps.raiseIf _ _).bind fun _ => .pure _

end Frame

end Nodeglow.Sidecar
