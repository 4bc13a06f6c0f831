import Nodeglow.Sidecar.Orchestrator

/-!
# The steps of an update in image mode

An installation that runs published images is a directory with the release's compose file, `.env`
and the ClickHouse files. An update finds a newer release, has `cosign` verify its images, pulls
them, copies the deploy files out of the updater image, puts them in place and pins the new version
in `.env`, migrates the database, and restarts the containers. This file embeds the ten steps.

Source: `sidecar/image_update.py`.
-/

namespace Nodeglow.Sidecar

open Effect

/-- `SIGNED_SERVICES`, which are also `PULL_SERVICES`. -/
def signedServices : List Service := [.nodeglow, .frontend, .updater]

/-- `DEPLOY_FILES`. -/
def deployFiles : List InstallFile := [.compose, .clickhouseConfig, .clickhouseInit]

/-- `VERSION_KEY`. -/
def versionKey : String := "NODEGLOW_VERSION"

/-- `MIN_FREE_BYTES`. -/
def minFreeBytes : ℕ := 2 * 1024 ^ 3

section Steps

variable (c : Ctx) (env : Environment)

/-- `current_version` for the given content of `.env`. -/
def currentVersion (dotenv : Option String) : String :=
  let value := readEnvValue dotenv versionKey
  if value = "" then env.versionVariable else value

/-! ### Before anything is changed -/

/-- `step_image_preflight` from the point on where the running version is known. -/
def preflightVersion (current : String) : Action String := do
  raiseIf (parseSemver current).isNone
    (stepError (versionKey ++ " in .env is not a release version (" ++
      (if current = "" then "unset" else current) ++ "); image updates need a pinned version"))
  let free ← liftExcept env.diskFree
  raiseIf (free < minFreeBytes)
    (stepError ("Not enough free disk space: " ++ oneDecimal free (1024 ^ 3) ++ " GB (need 2 GB)"))
  raiseIf (c.dbContainer = "")
    (stepError ("Database container not found for compose project '" ++ c.composeProject ++
      "'; set DB_CONTAINER in .env"))
  let (code, _) ← runCmd env .inspectDatabase
  raiseIf (code ≠ 0 || Text.strip (env.stdout .inspectDatabase) ≠ "true")
    (stepError ("Database container " ++ c.dbContainer ++ " is not running"))
  let data ← checkDataMount env .preflight
  modify fun w => { w with plan := { w.plan with current := some current } }
  pure (oneDecimal free (1024 ^ 3) ++ " GB free, " ++ c.dbContainer ++ " running, version " ++
    current ++ ", " ++ data)

/-- `step_image_preflight`. -/
def stepImagePreflight : Action String := do
  raiseIf (!env.dockerSocket) (stepError "Docker socket not available")
  let w ← get
  raiseIf (w.files (.live .compose)).isNone
    (stepError ("Compose file not found at " ++ c.composeFile))
  preflightVersion c env (currentVersion env (w.files (.live .env)))

/-- The image of one service in `_service_images`. -/
def signedImage (services : Json) (service : Service) : Except Exn (Service × String) := do
  let entry ← getOr services service.name .null
  let image ← getOr (if entry.truthy then entry else .obj []) "image" (.str "")
  match image with
  | .str ref =>
    if ref = "" then
      .error (stepError ("service '" ++ service.name ++ "' has no image in the compose file — " ++
        "image mode needs docker-compose.release.yml"))
    else pure (service, ref)
  | _ =>
    if image.truthy then .error ⟨.attributeError, "object has no attribute 'endswith'"⟩
    else .error (stepError ("service '" ++ service.name ++ "' has no image in the compose file — " ++
      "image mode needs docker-compose.release.yml"))

/-- `_service_images`: the image reference of each signed service as compose resolves it. -/
def serviceImages : Action (List (Service × String)) := do
  let (code, config, stderr) ← composeConfig env .resolve
  raiseIf (code ≠ 0)
    (stepError ("docker compose config failed: " ++ Text.lastChars maxErrorChars stderr))
  match config with
  | none => throw (stepError "docker compose config returned no JSON")
  | some config =>
    let services ← liftExcept (getOr config "services" (.obj []))
    liftExcept (signedServices.mapM (signedImage services))

/-- The version that `step_resolve` chooses: the newest release above the running one. -/
def resolveTarget (current : String) : Except Exn String := do
  if c.releasesUrl = "" then
    throw (stepError ("Update checks are disabled (NODEGLOW_RELEASES_URL=off); " ++
      "use an offline bundle"))
  match env.releases with
  | .error e => throw (stepError ("Release check failed: " ++ Text.lastChars 200 e.text))
  | .ok releases =>
    match semverKey current with
    | none => throw ⟨.valueError, "not a semantic version: '" ++ current ++ "'"⟩
    | some key =>
      let items ← iterate (if releases.truthy then releases else .arr [])
      match newerReleases items key c.allowPrerelease with
      | [] => throw (stepError ("No release newer than " ++ current ++ "; nothing to do"))
      | release :: _ => pure release.version

/-- Whether a reference ends in the tag of a version. -/
def hasTag (version ref : String) : Bool := (":" ++ version).toList.isSuffixOf ref.toList

/-- The version that runs, as `step_resolve` sees it. -/
def plannedCurrent (w : World) : String :=
  if w.plan.current.getD "" = "" then currentVersion env (w.files (.live .env))
  else w.plan.current.getD ""

/-- `step_resolve`. -/
def stepResolve : Action String := do
  let w ← get
  let target ← liftExcept (resolveTarget c env (plannedCurrent env w))
  modify fun w =>
    { w with plan := { w.plan with target := some target }, composeEnv := some target }
  let images ← serviceImages env
  modify fun w => { w with plan := { w.plan with images := images } }
  match images.find? fun p => !hasTag target p.2 with
  | some (service, image) =>
    throw (stepError (service.name ++ " image " ++ image ++ " is not tagged with " ++ target ++
      "; its tag must be $\x7b" ++ versionKey ++ "\x7d"))
  | none => pure (plannedCurrent env w ++ " → " ++ target)

/-! ### Verification -/

/-- Whether the characters are a digest: `sha256:` and 64 hexadecimal digits in lower case. -/
def isDigest (cs : List Char) : Bool :=
  cs.take 7 == "sha256:".toList && cs.length == 71 &&
    (cs.drop 7).all fun ch => ('0' ≤ ch && ch ≤ '9') || ('a' ≤ ch && ch ≤ 'f')

/-- The first digest in a text. -/
def searchDigest (text : String) : Option String :=
  ((text.toList.tails.map (List.take 71)).find? isDigest).map String.ofList

/-- The digest in the payload of one signature. -/
def payloadDigest (item : Json) : Except Exn String := do
  let item := if item.truthy then item else .obj []
  let critical ← getOr item "critical" .null
  let image ← getOr (if critical.truthy then critical else .obj []) "image" .null
  let digest ← getOr (if image.truthy then image else .obj []) "docker-manifest-digest" (.str "")
  match digest with
  | .str s => pure s
  | _ => if digest.truthy then .error ⟨.typeError, "expected string"⟩ else pure ""

/-- The digest of the first payload that has one. -/
def firstPayloadDigest : List Json → Except Exn (Option String)
  | [] => .ok none
  | item :: items => do
    let digest ← payloadDigest item
    if isDigest digest.toList then pure (some digest) else firstPayloadDigest items

/-- `_verified_digest`: the digest in the output of `cosign verify`. -/
def verifiedDigest (output : Printed) : Except Exn (Option String) := do
  let found ← match output.json with
    | some (.arr payloads) => firstPayloadDigest payloads
    | _ => pure none
  pure (found.orElse fun _ => searchDigest output.text)

/-- A dictionary with one more entry; an entry of the same key is replaced. -/
def dictInsert (key value : String) : List (String × String) → List (String × String)
  | [] => [(key, value)]
  | p :: ps => if p.1 = key then (key, value) :: ps else p :: dictInsert key value ps

/-- `cosign verify` of the image of one service: the digest it reports. -/
def cosignDigest (service : Service) (image : String) : Action String := do
  let (code, stderr) ← runCmd env (.cosignVerify service)
  raiseIf (code ≠ 0) (stepError ("signature verification failed for " ++ image ++ ": " ++
    Text.lastChars maxErrorChars
      (if stderr = "" then (env.cosignOutput service).text else stderr)))
  let digest ← liftExcept (verifiedDigest (env.cosignOutput service))
  match digest with
  | none => throw (stepError ("cosign verified " ++ image ++ " but reported no digest"))
  | some digest => pure digest

/-- The digests of the images of a plan. -/
def cosignDigests : List (Service × String) → List (String × String) →
    Action (List (String × String))
  | [], digests => pure digests
  | (service, image) :: images, digests => do
    let digest ← cosignDigest env service image
    cosignDigests images (dictInsert image digest digests)

/-- `step_verify`. -/
def stepVerify : Action String :=
  if !c.verify then pure "signature verification DISABLED"
  else do
    raiseIf (!env.cosignFound) (stepError ("cosign not found in the updater image, but " ++
      "NODEGLOW_VERIFY_SIGNATURES is on; refusing to install unverified images"))
    let w ← get
    let digests ← cosignDigests env w.plan.images []
    modify fun w => { w with plan := { w.plan with digests := digests } }
    pure (toString digests.length ++ " images signed by the release workflow")

/-- Whether docker knows an image under a digest. -/
def Image.hasDigest (image : Image) (digest : String) : Bool :=
  image.repoDigests.any fun d => ('@' :: digest.toList).isSuffixOf d.toList

/-- Checks that the local image of each verified reference is the verified one. -/
def checkDigests : List (String × String) → Action Unit
  | [] => pure ()
  | (image, digest) :: digests => do
    let (code, _) ← runCmd env (.inspectImage image)
    let w ← get
    raiseIf (code ≠ 0 || !(w.images image).any fun local_ => local_.hasDigest digest)
      (stepError ("pulled " ++ image ++ " does not match the verified digest " ++ digest))
    checkDigests digests

/-- `step_image_pull`. -/
def stepImagePull : Action String := do
  pullServices env signedServices
  let (code, stderr) ← runCmd env .composePull
  raiseIf (code ≠ 0)
    (stepError ("docker compose pull failed: " ++ Text.lastChars maxErrorChars stderr))
  let w ← get
  checkDigests env w.plan.digests
  pure ("pulled " ++ ", ".intercalate (signedServices.map Service.name) ++ " at " ++
    w.plan.target.getD "None")

/-! ### The deploy files -/

/-- The state with other contents of the staging directory. -/
def World.setStaged (w : World) (content : InstallFile → Option String) : World :=
  { w with files := fun p =>
      match p with
      | .staged f => content f
      | _ => w.files p }

/-- The state with the deploy files of an image copied to the staging directory. -/
def World.stageFiles (w : World) (image : Image) : World :=
  w.setStaged fun f => (image.deploy f).orElse fun _ => w.files (.staged f)

/-- The state after `shutil.rmtree` of the staging directory, which ignores its errors. -/
def World.clearStaging (w : World) (step : StepName) : World :=
  w.setStaged fun f =>
    if (env.failure (.clearStaged step f)).isNone then none else w.files (.staged f)

/-- The image of the updater in the plan, `ctx.plan["images"]["updater"]`. -/
def plannedUpdater (w : World) : Option String :=
  (w.plan.images.find? fun p => p.1 = .updater).map Prod.snd

/-- `docker create` of the updater image, `docker cp` of the deploy files, `docker rm`. The
container is removed also when the copy raises. -/
def copyDeployFiles (image : String) : Action (ℤ × String) := do
  let container ← createContainer env .dockerCreate image
  let (code, stderr) ← runCmd env .dockerCreate
  match container with
  | none => throw (stepError ("docker create " ++ image ++ " failed: " ++
      Text.lastChars maxErrorChars stderr))
  | some container =>
    raiseIf (code ≠ 0) (stepError ("docker create " ++ image ++ " failed: " ++
      Text.lastChars maxErrorChars stderr))
    modify fun w => w.stageFiles container
    let copied ← attempt (runCmd env .dockerCp)
    let _ ← runCmd env .dockerRm
    liftExcept copied

/-- `step_stage`. -/
def stepStage : Action String := do
  let w ← get
  match plannedUpdater w with
  | none => throw ⟨.keyError, "'updater'"⟩
  | some image =>
    modify fun w => w.clearStaging env .stage
    touch env .makeStagingDir
    let (code, stderr) ← copyDeployFiles env image
    raiseIf (code ≠ 0) (stepError ("could not copy deploy files from " ++ image ++ ": " ++
      Text.lastChars maxErrorChars stderr))
    let w ← get
    let missing := deployFiles.filter fun f => (w.files (.staged f)).isNone
    raiseIf (!missing.isEmpty) (stepError (image ++ " carries no deploy files (" ++
      ", ".intercalate (missing.map InstallFile.path) ++ " missing) — " ++
      "not an image built by the release workflow"))
    let (code, stderr) ← runCmd env .renderStaged
    raiseIf (code ≠ 0) (stepError ("the new compose file does not render with this .env: " ++
      Text.lastChars maxErrorChars stderr))
    pure (toString deployFiles.length ++ " deploy files of " ++ w.plan.target.getD "" ++ " staged")

/-- Puts back one file: what was not there is removed, what was there is copied back. An `OSError`
is logged and no more. -/
def restoreFile (entry : Option Path × Path) : Action Unit :=
  match entry with
  | (none, .live f) => tryCatch (remove env (.restore f) (.live f)) fun _ => pure ()
  | (some src, .live f) => tryCatch (copy2 env (.restore f) src (.live f)) fun _ => pure ()
  | _ => pure ()

/-- `revert_install`. -/
def revertInstall : Action Unit := do
  let w ← get
  w.plan.replaced.forM (restoreFile env)
  modify fun w => { w with plan := { w.plan with replaced := [] } }

/-- The state with one more entry of `plan["replaced"]`. -/
def World.noteReplaced (w : World) (src : Option Path) (f : InstallFile) : World :=
  { w with plan := { w.plan with replaced := w.plan.replaced ++ [(src, .live f)] } }

/-- Keeps a copy of a file in place, if there is one, and notes how to undo its replacement. -/
def keepFile (f : InstallFile) : Action Unit := do
  let w ← get
  if (w.files (.live f)).isSome then
    copy2 env (.keep f) (.live f) (.kept f)
    modify fun w => w.noteReplaced (some (.kept f)) f
  else modify fun w => w.noteReplaced none f

/-- The replacement of one deploy file. -/
def placeFile (f : InstallFile) : Action Unit := do
  keepFile env f
  touch env (.makeDir f)
  copy2 env (.place f) (.staged f) (.live f)

/-- `write_env_value` on `.env`: a temporary file that then replaces it. -/
def writeEnvValue (key value : String) : Action Unit := do
  touch env .readEnv
  let w ← get
  touch env .writeEnvTmp
  modify fun w' => w'.setFile .envTmp (some (writeEnvContent (w.files (.live .env)) key value))
  touch env .replaceEnv
  modify fun w' => (w'.setFile (.live .env) (w'.files .envTmp)).setFile .envTmp none

/-- The part of `step_install` that replaces the files. -/
def placeFiles (target : String) : Action Unit := do
  deployFiles.forM (placeFile env)
  keepFile env .env
  writeEnvValue env versionKey target

/-- The replacement of the files; an `OSError` undoes it. -/
def placeOrRevert (target : String) : Action Unit :=
  tryCatch (placeFiles env target) fun e =>
    if e.kind = .osError then do
      revertInstall env
      throw (stepError ("could not install the deploy files: " ++ e.text))
    else throw e

/-- The check of `/data` with the new files in place; a `StepError` undoes the replacement. -/
def recheckDataMount : Action String :=
  tryCatch (checkDataMount env .install) fun e =>
    if e.kind = .stepError then do
      revertInstall env
      throw e
    else throw e

/-- `step_install`. -/
def stepInstall : Action String := do
  let w ← get
  match w.plan.target with
  | none => throw ⟨.keyError, "'target'"⟩
  | some target =>
    modify fun w => { w with plan := { w.plan with replaced := [] } }
    placeOrRevert env target
    let data ← recheckDataMount env
    modify fun w => w.clearStaging env .install
    pure (versionKey ++ "=" ++ target ++ ", compose file updated (previous files kept as *.bak-" ++
      c.runId ++ "); " ++ data)

/-- `step_image_migrate`. -/
def stepImageMigrate : Action String :=
  tryCatch (stepMigrate env) fun e => do
    revertInstall env
    throw e

/-- What the helper container does: compose recreates the updater. The helper is detached, so that
it may also run where the command that starts it exceeds its timeout. -/
def handoffServices (helper : Option Image) : Action Unit :=
  if helper.isSome && (env.fate .dockerRun).mayHaveRun then
    createServices env .handoffUp [.updater]
  else pure ()

/-- `step_handoff`: a helper of the new updater image recreates the updater. -/
def stepHandoff : Action String := do
  let w ← get
  match plannedUpdater w with
  | none => pure handoffByHand
  | some image =>
    if c.projectDir = "" then pure handoffByHand
    else do
      let helper ← createContainer env .dockerRun image
      handoffServices env helper
      let (code, stderr) ← runCmd env .dockerRun
      if helper.isNone || code ≠ 0 then
        pure ("updater not recreated: " ++ Text.lastChars 200 stderr ++
          " — run `docker compose up -d updater`")
      else pure "updater will be recreated on the new version in a few seconds"
where
  handoffByHand : String := "updater not recreated (host directory unknown); " ++
    "run `docker compose up -d updater` in the installation directory"

/-- `image_steps`. -/
def imageSteps : List (StepName × Action String) :=
  [(.preflight, stepImagePreflight c env),
    (.resolve, stepResolve c env),
    (.verify, stepVerify c env),
    (.backup, stepBackup c env),
    (.pull, stepImagePull env),
    (.stage, stepStage env),
    (.install, stepInstall c env),
    (.migrate, stepImageMigrate env),
    (.restart, stepRestart env),
    (.handoff, stepHandoff c env)]

/-- An update in image mode of an installation with the given files and local images. -/
def imageUpdate (files : Path → Option String) (images : String → Option Image) : Outcome :=
  runUpdate c env (imageSteps c env) (World.start files images)

end Steps

/-! ### A sample installation -/

def sampleCtx : Ctx :=
  { composeProject := "nodeglow"
    composeFile := "/srv/nodeglow/docker-compose.yml"
    dbContainer := "nodeglow-db-1"
    projectDir := "/srv/nodeglow"
    runId := "2026-01-01T00-00-00"
    releasesUrl := "https://releases"
    allowPrerelease := false
    verify := true }

/-- The digest of the signed images of the sample. -/
def sampleDigest : String := "sha256:" ++ String.ofList (List.replicate 64 'a')

/-- A compose file is its registry here: each service has an image of it, at the given version. -/
def sampleConfig (registry : String) (version : Option String) : Json :=
  let image (name : String) : String × Json :=
    ("image", .str (registry ++ "/" ++ name ++ ":" ++ version.getD ""))
  .obj [("services", .obj [
    ("nodeglow", .obj [image "nodeglow", ("volumes", .arr [.obj [("type", .str "bind"),
      ("source", .str "/srv/nodeglow/data"), ("target", .str "/data")]])]),
    ("frontend", .obj [image "frontend"]),
    ("updater", .obj [image "updater"])])]

/-- The mount of `/data` of the running application. -/
def sampleMounts : Json :=
  .arr [.obj [("Type", .str "bind"), ("Source", .str "/srv/nodeglow/data"),
    ("Destination", .str "/data")]]

/-- An outside world in which the release 2.0.0 is published, with the given fates of the commands
and the given answers of the registry. -/
def sampleEnvironment (fate : Command → Fate) (registry : String → Option Image) : Environment :=
  { fate := fate
    failure := fun _ => none
    registry := fun _ => registry
    render := fun content _ version => some (sampleConfig content version)
    mounts := fun _ => some sampleMounts
    stdout := fun _ => "true"
    cosignOutput := fun _ => ⟨sampleDigest, none⟩
    releases := .ok (.arr [.obj [("tag_name", .str "v2.0.0")]])
    dump := .ok (0, 0, "")
    diskFree := .ok (2 ^ 33)
    dockerSocket := true
    cosignFound := true
    versionVariable := ""
    now := fun _ => "2026-01-01T00:00:00"
    backupsKept := 1 }

/-- A signed image with the deploy files of a release. -/
def sampleImage (compose : String) : Image :=
  { repoDigests := ["ghcr.io/jubacch/image@" ++ sampleDigest]
    deploy := fun
      | .compose => some compose
      | .env => none
      | _ => some "<new/>" }

/-- The files of an installation at version 1.0.0. -/
def sampleFiles : Path → Option String
  | .live .compose => some "ghcr.io/jubacch"
  | .live .clickhouseConfig => some "<old/>"
  | .live .env => some "NODEGLOW_VERSION=1.0.0\n"
  | _ => none

end Nodeglow.Sidecar
