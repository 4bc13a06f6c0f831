import Nodeglow.Sidecar.InstallRollback

/-!
# The images an update starts

The step `verify` has `cosign` verify the images that the installed compose file names at the new
version, and `pull` compares the local images with the verified digests, so that a tag that the
registry moves in between is noticed. From then on the local images of these references are
verified ones, and docker starts local images without asking the registry again.

The step `install`, however, replaces the compose file by the one of the release, and `migrate`,
`restart` and the helper of `handoff` start the images that the new file names. Where it names other
references than the old one, their images were never verified (`unverified_image_started`); where it
names none but these, every container is created from a verified image (`created_verified`).

## Main results

* `Sidecar.stepResolve_ensures`, `Sidecar.stepVerify_ensures`, `Sidecar.stepImagePull_ensures`,
  `Sidecar.stepStage_ensures`.
* `Sidecar.created_verified`.

Source: `sidecar/image_update.py`, `sidecar/orchestrator.py`.
-/

namespace Nodeglow.Sidecar

open Effect

/-! ### Verified images -/

/-- `cosign` has verified the digest in the step `verify` of the run. -/
def CosignVerified (env : Environment) (digest : String) : Prop :=
  ∃ service stderr, env.fate (.cosignVerify service) = .exits 0 stderr ∧
    verifiedDigest (env.cosignOutput service) = .ok (some digest)

/-- The image has a digest that `cosign` verified. -/
def Signed (env : Environment) (image : Image) : Prop :=
  ∃ digest, CosignVerified env digest ∧ image.hasDigest digest

/-- Every container of the run was created from a verified image. -/
def OnlyVerified (env : Environment) (out : Outcome) : Prop :=
  ∀ image ∈ out.world.created, Signed env image

/-- The reference of a service in what compose resolves. -/
def configRef (config : Output) (service : Service) : Option String :=
  (config.bind fun config => serviceImage config service).bind Json.str?

/-- The reference of a service in the compose file that is installed, at a version. -/
def installedRef (env : Environment) (files : Path → Option String) (version : String)
    (service : Service) : Option String :=
  configRef ((files (.live .compose)).bind fun content =>
    env.render content (files (.live .env)) (some version)) service

/-- The image from which the deploy files of a version are copied: the one that the registry serves
for the updater during `pull`, else the local one. -/
def releaseImage (env : Environment) (files : Path → Option String)
    (images : String → Option Image) (version : String) : Option Image :=
  (installedRef env files version .updater).bind fun ref =>
    (env.registry .composePull ref).orElse fun _ => images ref

/-- The compose file that is staged from an image. A staging directory that cannot be cleared may
still hold an older one. -/
def releaseCompose (env : Environment) (files : Path → Option String) (image : Image) :
    Option String :=
  (image.deploy .compose).orElse fun _ =>
    if (env.failure (.clearStaged .stage .compose)).isNone then none else files (.staged .compose)

/-- The reference of a service in the compose file of the release, with the new version pinned. -/
def releaseRef (env : Environment) (files : Path → Option String) (compose version : String)
    (service : Service) : Option String :=
  configRef (env.render compose (some (writeEnvContent (files (.live .env)) versionKey version))
    (some version)) service

/-- The compose file of the release names for the services no references but those that the
installed compose file names for them at that version. -/
def ReleaseKeepsImages (c : Ctx) (env : Environment) (files : Path → Option String)
    (images : String → Option Image) : Prop :=
  ∀ version, resolveTarget c env (currentVersion env (files (.live .env))) = .ok version →
    ∀ image, releaseImage env files images version = some image →
      ∀ compose, releaseCompose env files image = some compose →
        ∀ service ref, releaseRef env files compose version service = some ref →
          ∃ service', installedRef env files version service' = some ref

/-! ### From the releases to the plan -/

section Resolve

variable {c : Ctx} {env : Environment} {files : Path → Option String}
  {images : String → Option Image}

/-- The run before `resolve`: nothing has been changed but the plan. -/
structure Fresh (env : Environment) (files : Path → Option String) (images : String → Option Image)
    (w : World) : Prop where
  files_eq : w.files = files
  images_eq : w.images = images
  created : w.created = []
  current : plannedCurrent env w = currentVersion env (files (.live .env))

theorem fresh_start : Fresh env files images (World.start files images) :=
  ⟨rfl, rfl, rfl, rfl⟩

/-- What keeps the run as it was has created no container. -/
theorem fresh_of_keeps {α : Type} {m : Action α} (h : Keeps (Fresh env files images) m) :
    Ensures (Fresh env files images) m (fun _ => Fresh env files images) fun _ w => w.created = [] :=
  h.raises fun _ _ h => h.created

theorem preflightVersion_fresh {current : String}
    (hcurrent : current = currentVersion env (files (.live .env))) :
    Ensures (Fresh env files images) (preflightVersion c env current)
      (fun _ => Fresh env files images) fun _ w => w.created = [] := by
  refine Ensures.bind (fresh_of_keeps (.raiseIf _ _)) fun _ => ?_
  refine Ensures.bind (fresh_of_keeps (liftExcept_keeps _)) fun free => ?_
  refine Ensures.bind (fresh_of_keeps (.raiseIf _ _)) fun _ => ?_
  refine Ensures.bind (fresh_of_keeps (.raiseIf _ _)) fun _ => ?_
  refine Ensures.bind (fresh_of_keeps (runCmd_keeps _)) fun ⟨code, _⟩ => ?_
  refine Ensures.bind (fresh_of_keeps (.raiseIf _ _)) fun _ => ?_
  refine Ensures.bind (fresh_of_keeps (checkDataMount_keeps _)) fun data => ?_
  refine Ensures.bind (Q := fun _ => Fresh env files images) (.update fun w h => ?_)
    fun _ => .pure fun _ h => h
  refine ⟨h.files_eq, h.images_eq, h.created, ?_⟩
  simp only [plannedCurrent, h.files_eq, Option.getD_some, hcurrent, ite_self]

theorem stepImagePreflight_fresh :
    Ensures (Fresh env files images) (stepImagePreflight c env) (fun _ => Fresh env files images)
      fun _ w => w.created = [] := by
  refine .raiseIf_bind (fun _ _ h => h.created) fun _ => ?_
  refine .get_bind fun w hw => .pre ?_ fun _ h => h.2
  refine .raiseIf_bind (fun _ _ h => h.created) fun _ => ?_
  exact preflightVersion_fresh (by rw [hw.files_eq])

/-- A computation that succeeds on every item of a list: its values are those of the items. -/
theorem mapM_eq_ok {α β : Type} {f : α → Except Exn β} {l : List α} {bs : List β}
    (h : l.mapM f = .ok bs) : (∀ b ∈ bs, ∃ a ∈ l, f a = .ok b) ∧ ∀ a ∈ l, ∃ b ∈ bs, f a = .ok b := by
  induction l generalizing bs with
  | nil =>
    obtain rfl := Except.ok.inj h
    simp
  | cons a l ih =>
    rw [List.mapM_cons] at h
    cases ha : f a with
    | error e => simp [ha, bind, Except.bind] at h
    | ok b =>
      cases hl : l.mapM f with
      | error e => simp [ha, hl, bind, Except.bind] at h
      | ok rest =>
        simp only [ha, hl, bind, Except.bind, pure, Except.pure, Except.ok.injEq] at h
        subst h
        obtain ⟨hleft, hright⟩ := ih hl
        refine ⟨List.forall_mem_cons.mpr ⟨⟨a, by simp, ha⟩, fun b' hb' => ?_⟩,
          List.forall_mem_cons.mpr ⟨⟨b, by simp, ha⟩, fun a' ha' => ?_⟩⟩
        · obtain ⟨a', ha', hfa'⟩ := hleft b' hb'
          exact ⟨a', by simp [ha'], hfa'⟩
        · obtain ⟨b', hb', hfa'⟩ := hright a' ha'
          exact ⟨b', by simp [hb'], hfa'⟩

theorem getOr_eq_ok {j value default : Json} {key : String} (h : getOr j key default = .ok value) :
    value = (j.get? key).getD default := by
  cases j with
  | obj fields => exact (Except.ok.inj h).symm
  | _ => simp [getOr] at h

/-- The image that `_service_images` reads is the one that compose starts. -/
theorem signedImage_eq_ok {config services : Json} {service : Service} {p : Service × String}
    (hservices : getOr config "services" (.obj []) = .ok services)
    (h : signedImage services service = .ok p) :
    p.1 = service ∧ configRef (some config) service = some p.2 := by
  have hservices' := getOr_eq_ok hservices
  unfold signedImage at h
  cases hentry : getOr services service.name .null with
  | error e => simp [hentry, bind, Except.bind] at h
  | ok entry =>
    have hentry' := getOr_eq_ok hentry
    simp only [hentry, bind, Except.bind] at h
    cases himage : getOr (if entry.truthy then entry else .obj []) "image" (.str "") with
    | error e => simp [himage] at h
    | ok image =>
      have himage' := getOr_eq_ok himage
      simp only [himage] at h
      cases image with
      | str ref =>
        by_cases href : ref = ""
        · simp [href] at h
        · simp only [href, if_false, pure, Except.pure, Except.ok.injEq] at h
          subst h
          refine ⟨rfl, ?_⟩
          have hnone (key : String) : (Json.obj []).get? key = none := rfl
          -- the default values of the three look-ups have no image
          cases hservices'' : config.get? "services" with
          | none =>
            simp [hservices', hservices'', hnone, hentry', Json.truthy] at himage'
            exact absurd himage' href
          | some services' =>
            obtain rfl : services = services' := by simpa [hservices''] using hservices'
            cases hentry'' : services.get? service.name with
            | none =>
              simp [hentry', hentry'', hnone, Json.truthy] at himage'
              exact absurd himage' href
            | some entry' =>
              obtain rfl : entry = entry' := by simpa [hentry''] using hentry'
              cases htruthy : entry.truthy with
              | false =>
                simp [htruthy, hnone] at himage'
                exact absurd himage' href
              | true =>
                simp only [htruthy, if_true] at himage'
                cases hget : entry.get? "image" with
                | none =>
                  simp [hget] at himage'
                  exact absurd himage' href
                | some image =>
                  obtain rfl : Json.str ref = image := by simpa [hget] using himage'
                  simp [configRef, serviceImage, hservices'', hentry'', hget, Json.str?]
      | _ =>
        simp only at h
        split at h
        · cases h
        · cases h

/-- The images of the plan are those that compose resolves. -/
theorem signedImages_eq_ok {config services : Json} {images : List (Service × String)}
    (hservices : getOr config "services" (.obj []) = .ok services)
    (h : signedServices.mapM (signedImage services) = .ok images) (service : Service)
    (ref : String) : (service, ref) ∈ images ↔ configRef (some config) service = some ref := by
  obtain ⟨hleft, hright⟩ := mapM_eq_ok h
  constructor
  · intro hmem
    obtain ⟨service', -, himage⟩ := hleft _ hmem
    obtain ⟨hfst, hsnd⟩ := signedImage_eq_ok hservices himage
    rwa [← hfst] at hsnd
  · intro href
    have hmem : service ∈ signedServices := by cases service <;> decide
    obtain ⟨p, hp, himage⟩ := hright service hmem
    obtain ⟨hfst, hsnd⟩ := signedImage_eq_ok hservices himage
    have heq : p = (service, ref) := Prod.ext hfst (Option.some.inj (hsnd.symm.trans href))
    rwa [← heq]

/-- The version the run installs. -/
def World.version (w : World) : String := w.plan.target.getD ""

/-- The plan of the run is made: it names the images of the installed compose file at the version
that `step_resolve` chose. -/
structure Planned (c : Ctx) (env : Environment) (files : Path → Option String) (w : World) :
    Prop where
  live : ∀ f, w.files (.live f) = files (.live f)
  staged : w.files (.staged .compose) = files (.staged .compose)
  composeEnv : w.composeEnv = some w.version
  target : w.plan.target = some w.version
  resolved : resolveTarget c env (currentVersion env (files (.live .env))) = .ok w.version
  planned : ∀ service ref, (service, ref) ∈ w.plan.images ↔
    installedRef env files w.version service = some ref

/-- The images of the plan are read from what compose resolves. -/
theorem serviceImages_ensures {P : World → Prop} {R : Exn → World → Prop} (config : Output)
    (hP : ∀ w, P w → composed env w = config) (hR : ∀ e w, P w → R e w) :
    Ensures P (serviceImages env) (fun images w => P w ∧
      ∀ service ref, (service, ref) ∈ images ↔ configRef config service = some ref) R := by
  refine Ensures.bind (Q := fun r w => r.2.1 = config ∧ P w) ?_ fun ⟨code, config', stderr⟩ => ?_
  · refine Ensures.bind ((runCmd_keeps _).raises fun e w => hR e w)
      fun ⟨code, stderr⟩ => .get_bind fun w hw => .pure ?_
    rintro w' ⟨-, hw'⟩
    exact ⟨hP w hw, hw'⟩
  · refine .of_pre (fun _ h => h.1) fun hconfig => .pre ?_ fun _ h => h.2
    obtain rfl : config' = config := hconfig
    refine .raiseIf_bind (fun _ w h => hR _ w h) fun _ => ?_
    cases config' with
    | none => exact .throw fun w h => hR _ w h
    | some config =>
      refine liftExcept_bind (fun e _ w h => hR e w h) fun services hservices => ?_
      cases himages : signedServices.mapM (signedImage services) with
      | error e => exact .throw fun w h => hR e w h
      | ok images => exact .pure fun w h => ⟨h, signedImages_eq_ok hservices himages⟩

/-- **`resolve`.** -/
theorem stepResolve_ensures :
    Ensures (Fresh env files images) (stepResolve c env)
      (fun _ w => Planned c env files w ∧ w.images = images ∧ w.created = [])
      fun _ w => w.created = [] := by
  refine .get_bind fun w hw => .pre ?_ fun _ h => h.2
  rw [hw.current]
  refine liftExcept_bind (fun e _ w h => h.created) fun target htarget => ?_
  refine Ensures.bind (Q := fun _ w => w.files = files ∧ w.images = images ∧ w.created = [] ∧
    w.composeEnv = some target ∧ w.plan.target = some target) (.update fun w h => ?_) fun _ => ?_
  · exact ⟨h.files_eq, h.images_eq, h.created, rfl, rfl⟩
  refine (serviceImages_ensures ((files (.live .compose)).bind fun content =>
    env.render content (files (.live .env)) (some target)) (fun w h => ?_) fun e w h => ?_).bind
      fun images' => ?_
  · rw [composed, h.1, h.2.2.2.1]
  · exact h.2.2.1
  · refine Ensures.bind (Q := fun _ w => Planned c env files w ∧ w.images = images ∧
      w.created = []) (.update fun w h => ?_) fun _ => ?_
    · obtain ⟨⟨hfiles, himages, hcreated, henv, htarget'⟩, hplanned⟩ := h
      have hversion : ({ w with plan := { w.plan with images := images' } } : World).version =
          target := by simp [World.version, htarget']
      refine ⟨⟨?_, ?_, ?_, ?_, ?_, ?_⟩, himages, hcreated⟩
      · exact fun f => by rw [hfiles]
      · exact by rw [hfiles]
      · rw [hversion]
        exact henv
      · rw [hversion]
        exact htarget'
      · rw [hversion]
        exact htarget
      · rw [hversion]
        exact hplanned
    · split
      · exact .throw fun _ h => h.2.2
      · exact .pure fun _ h => h

end Resolve

/-! ### From the plan to verified local images -/

section Verify

variable {c : Ctx} {env : Environment} {files : Path → Option String}
  {images : String → Option Image}

theorem mem_dictInsert {key value : String} {l : List (String × String)} {p : String × String}
    (h : p ∈ dictInsert key value l) : p = (key, value) ∨ p ∈ l := by
  induction l with
  | nil => simpa [dictInsert] using h
  | cons q l ih =>
    unfold dictInsert at h
    split at h
    · rcases List.mem_cons.mp h with rfl | h
      · exact .inl rfl
      · exact .inr (List.mem_cons_of_mem _ h)
    · rcases List.mem_cons.mp h with rfl | h
      · exact .inr (List.mem_cons_self ..)
      · exact (ih h).imp id (List.mem_cons_of_mem _)

/-- An entry adds its key and takes none away. -/
theorem mem_keys_dictInsert {key value key' : String} {l : List (String × String)} :
    key' ∈ (dictInsert key value l).map Prod.fst ↔ key' = key ∨ key' ∈ l.map Prod.fst := by
  induction l with
  | nil => simp [dictInsert]
  | cons q l ih =>
    unfold dictInsert
    split
    · next heq =>
      simp only [List.map_cons, List.mem_cons, heq]
      tauto
    · simp only [List.map_cons, List.mem_cons, ih]
      tauto

theorem cosignDigest_ensures {P : World → Prop} {R : Exn → World → Prop}
    (hR : ∀ e w, P w → R e w) (service : Service) (image : String) :
    Ensures P (cosignDigest env service image) (fun digest w => CosignVerified env digest ∧ P w)
      R := by
  unfold cosignDigest runCmd
  cases hfate : env.fate (.cosignVerify service) with
  | raises e => exact Ensures.bind (Q := fun _ _ => False) (.throw fun w h => hR e w h) fun _ =>
      ⟨fun _ h => h.elim⟩
  | exits code stderr =>
    refine Ensures.bind (Q := fun r w => r = (code, stderr) ∧ P w) (.pure fun w h => ⟨rfl, h⟩)
      fun ⟨code', stderr'⟩ => .of_pre (fun _ h => h.1) fun hr => .pre ?_ fun _ h => h.2
    obtain ⟨rfl, rfl⟩ := Prod.mk.inj hr
    refine .raiseIf_bind (fun _ w h => hR _ w h) fun hcode => ?_
    have hzero : code' = 0 := by simpa using hcode
    subst hzero
    refine liftExcept_bind (fun e _ w h => hR e w h) fun digest hdigest => ?_
    cases digest with
    | none => exact .throw fun w h => hR _ w h
    | some digest => exact .pure fun w h => ⟨⟨service, stderr', hfate, hdigest⟩, h⟩

/-- Every digest is one that `cosign` verified, and every image of the plan has one. -/
theorem cosignDigests_ensures {P : World → Prop} {R : Exn → World → Prop}
    (hR : ∀ e w, P w → R e w) (planned : List (Service × String))
    (digests : List (String × String)) (hdigests : ∀ p ∈ digests, CosignVerified env p.2) :
    Ensures P (cosignDigests env planned digests) (fun result w => P w ∧
      (∀ p ∈ result, CosignVerified env p.2) ∧
      (∀ ref ∈ digests.map Prod.fst, ref ∈ result.map Prod.fst) ∧
      ∀ p ∈ planned, p.2 ∈ result.map Prod.fst) R := by
  induction planned generalizing digests with
  | nil => exact .pure fun w h => ⟨h, hdigests, fun _ h => h, by simp⟩
  | cons p planned ih =>
    obtain ⟨service, image⟩ := p
    refine (cosignDigest_ensures hR service image).bind fun digest => ?_
    refine .of_pre (fun _ h => h.1) fun hdigest => .pre ?_ fun _ h => h.2
    have hinsert : ∀ p ∈ dictInsert image digest digests, CosignVerified env p.2 := by
      intro p hp
      rcases mem_dictInsert hp with rfl | hp
      · exact hdigest
      · exact hdigests p hp
    refine (ih _ hinsert).post ?_
    rintro result w ⟨hw, hverified, hkeys, hplanned⟩
    refine ⟨hw, hverified, fun ref href => hkeys ref (mem_keys_dictInsert.mpr (.inr href)), ?_⟩
    exact List.forall_mem_cons.mpr
      ⟨hkeys image (mem_keys_dictInsert.mpr (.inl rfl)), hplanned⟩

/-- The digests of the plan: each was verified, and each image of the plan has one. -/
structure Verified (env : Environment) (w : World) : Prop where
  digests : ∀ p ∈ w.plan.digests, CosignVerified env p.2
  covered : ∀ p ∈ w.plan.images, p.2 ∈ w.plan.digests.map Prod.fst

/-- **`verify`.** -/
theorem stepVerify_ensures (hverify : c.verify = true) :
    Ensures (fun w => Planned c env files w ∧ w.images = images ∧ w.created = [])
      (stepVerify c env)
      (fun _ w => (Planned c env files w ∧ Verified env w) ∧ w.images = images ∧ w.created = [])
      fun _ w => w.created = [] := by
  unfold stepVerify
  rw [if_neg (by simp [hverify])]
  refine .raiseIf_bind (fun _ _ h => h.2.2) fun _ => .get_bind fun w _ => ?_
  refine (cosignDigests_ensures (fun _ w' h => h.2.2.2) w.plan.images [] (by simp)).bind
    fun digests => ?_
  refine Ensures.bind (Q := fun _ w => (Planned c env files w ∧ Verified env w) ∧
    w.images = images ∧ w.created = []) (.update ?_) fun _ => .pure fun _ h => h
  rintro w' ⟨⟨rfl, hplanned, himages, hcreated⟩, hverified, -, hcovered⟩
  refine ⟨⟨⟨hplanned.live, hplanned.staged, hplanned.composeEnv, hplanned.target,
    hplanned.resolved, hplanned.planned⟩, hverified, hcovered⟩, himages, hcreated⟩

/-- The reference of a service does not depend on the images of docker. -/
theorem Planned.composeImage_eq {w : World} (h : Planned c env files w) (service : Service) :
    composeImage env w service = installedRef env files w.version service := by
  rw [composeImage, composed, h.live, h.live, h.composeEnv]
  rfl

/-- What docker has for a reference after `pull`, when it had `before` for it. -/
def pulledImage (env : Environment) (ref : String) (before : Option Image) : Option Image :=
  (env.registry .composePull ref).orElse fun _ => before

theorem pulledImage_idem (ref : String) (before : Option Image) :
    pulledImage env ref (pulledImage env ref before) = pulledImage env ref before := by
  unfold pulledImage
  cases env.registry .composePull ref <;> rfl

/-- One step of the pull: the image of the reference of one service. -/
theorem pullServices_cons {w : World} (h : Planned c env files w) (service : Service)
    (services : List Service) :
    pullServices env (service :: services) w = pullServices env services
      { w with images := (installedRef env files w.version service).elim w.images fun ref =>
          Function.update w.images ref (pulledImage env ref (w.images ref)) } := by
  have hget {f : World → Action Unit} : (get >>= f) w = f w w := rfl
  rw [pullServices, hget, h.composeImage_eq]
  cases installedRef env files w.version service with
  | none => rfl
  | some ref =>
    simp only [Option.bind_some, Option.elim_some, pulledImage]
    cases env.registry .composePull ref with
    | none => simp [Function.update_eq_self]
    | some image => rfl

/-- What `verify` has left, for a fixed version. -/
structure Checked (c : Ctx) (env : Environment) (files : Path → Option String) (version : String)
    (w : World) : Prop where
  planned : Planned c env files w
  verified : Verified env w
  created : w.created = []
  version_eq : w.version = version

theorem Checked.setImages {w : World} {version : String} (h : Checked c env files version w)
    (images : String → Option Image) : Checked c env files version { w with images := images } :=
  ⟨⟨h.planned.live, h.planned.staged, h.planned.composeEnv, h.planned.target, h.planned.resolved,
    h.planned.planned⟩, ⟨h.verified.digests, h.verified.covered⟩, h.created, h.version_eq⟩

/-- After the pull of some services the reference has the image that the registry serves, if one of
the services has this reference; else it may have the image it had. -/
structure PulledRef (c : Ctx) (env : Environment) (files : Path → Option String)
    (version ref : String) (before : Option Image) (services : List Service) (w : World) : Prop where
  checked : Checked c env files version w
  pulled : (∃ service ∈ services, installedRef env files version service = some ref) →
    w.images ref = pulledImage env ref before
  images : w.images ref = before ∨ w.images ref = pulledImage env ref before

theorem pullServices_ensures {R : Exn → World → Prop} {version ref : String}
    (services : List Service) (before : Option Image) :
    Ensures (fun w => Checked c env files version w ∧ w.images ref = before)
      (pullServices env services)
      (fun _ => PulledRef c env files version ref before services) R := by
  induction services generalizing before with
  | nil => exact .pure fun w h => ⟨h.1, by simp, .inl h.2⟩
  | cons service services ih =>
    refine ⟨fun w hw => ?_⟩
    obtain ⟨hw, hbefore⟩ := hw
    rw [pullServices_cons hw.planned, hw.version_eq]
    by_cases href : installedRef env files version service = some ref
    · -- the image of the reference is set, and later services leave it
      rw [href, Option.elim_some]
      have hset : Ensures (fun w => Checked c env files version w ∧
            w.images ref = pulledImage env ref before) (pullServices env services)
          (fun _ => PulledRef c env files version ref before (service :: services)) R := by
        refine (ih _).post fun _ w' h => ?_
        have himages := h.images
        rw [pulledImage_idem, or_self] at himages
        exact ⟨h.checked, fun _ => himages, .inr himages⟩
      exact hset.run _ ⟨hw.setImages _, by simp [hbefore]⟩
    · have hsame : ((installedRef env files version service).elim w.images fun ref' =>
          Function.update w.images ref' (pulledImage env ref' (w.images ref'))) ref = before := by
        cases hother : installedRef env files version service with
        | none => exact hbefore
        | some ref' =>
          have hne : ref ≠ ref' := fun h => href (h ▸ hother)
          rw [Option.elim_some, Function.update_of_ne hne, hbefore]
      have hrest : Ensures (fun w => Checked c env files version w ∧ w.images ref = before)
          (pullServices env services)
          (fun _ => PulledRef c env files version ref before (service :: services)) R := by
        refine (ih before).post fun _ w' h => ?_
        refine ⟨h.checked, fun ⟨service', hmem, href'⟩ => h.pulled ⟨service', ?_, href'⟩, h.images⟩
        exact (List.mem_cons.mp hmem).resolve_left fun heq => href (heq ▸ href')
      exact hrest.run _ ⟨hw.setImages _, hsame⟩

/-- The local images of the given references have the given digests. -/
def HasDigests (digests : List (String × String)) (w : World) : Prop :=
  ∀ p ∈ digests, ∃ image, w.images p.1 = some image ∧ image.hasDigest p.2 = true

/-- A moved tag is noticed: the check passes where each local image has its verified digest. -/
theorem checkDigests_ensures {P : World → Prop} {R : Exn → World → Prop}
    (hR : ∀ e w, P w → R e w) (digests : List (String × String)) :
    Ensures P (checkDigests env digests) (fun _ w => P w ∧ HasDigests digests w) R := by
  induction digests generalizing P with
  | nil => exact .pure fun w h => ⟨h, by simp [HasDigests]⟩
  | cons p digests ih =>
    obtain ⟨image, digest⟩ := p
    refine Ensures.bind ((runCmd_keeps _).raises fun e w => hR e w)
      fun ⟨code, _⟩ => .get_bind fun w _ => ?_
    refine .raiseIf_bind (fun _ w h => hR _ w h.2) fun hpass => ?_
    have himage : ∃ local_, w.images image = some local_ ∧ local_.hasDigest digest = true := by
      simp only [Bool.or_eq_false_iff, Bool.not_eq_false', Option.any_eq_true] at hpass
      exact hpass.2
    refine ((ih (P := fun w' => P w' ∧ w'.images = w.images) fun e w h => hR e w h.1).pre
      fun w' h => ⟨h.2, by rw [h.1]⟩).post ?_
    rintro _ w' ⟨⟨hw', hsame⟩, hdigests⟩
    refine ⟨hw', List.forall_mem_cons.mpr ⟨?_, hdigests⟩⟩
    rwa [hsame]

/-- What `pull` has left: each reference of the plan has a verified local image, and that of the
updater is the image of the release. -/
structure Pulled (c : Ctx) (env : Environment) (files : Path → Option String)
    (images : String → Option Image) (w : World) : Prop where
  planned : Planned c env files w
  signed : ∀ p ∈ w.plan.images, ∃ image, w.images p.2 = some image ∧ Signed env image
  created : w.created = []
  release : ∀ ref, installedRef env files w.version .updater = some ref →
    w.images ref = releaseImage env files images w.version

/-- **`pull`.** -/
theorem stepImagePull_ensures :
    Ensures (fun w => (Planned c env files w ∧ Verified env w) ∧ w.images = images ∧ w.created = [])
      (stepImagePull env) (fun _ => Pulled c env files images) fun _ w => w.created = [] := by
  refine .of_start fun w₀ h₀ => ?_
  obtain ⟨⟨hplanned, hverified⟩, himages, hcreated⟩ := h₀
  generalize href : (installedRef env files w₀.version .updater).getD "" = ref
  have hpull : Ensures (fun w => w = w₀) (pullServices env signedServices)
      (fun _ => PulledRef c env files w₀.version ref (images ref) signedServices)
      fun (_ : Exn) w => w.created = [] := by
    refine (pullServices_ensures signedServices (images ref)).pre ?_
    rintro w rfl
    exact ⟨⟨hplanned, hverified, hcreated, rfl⟩, by rw [himages]⟩
  refine hpull.bind fun _ => ?_
  refine Ensures.bind ((runCmd_keeps _).raises
    fun _ w h => h.checked.created) fun ⟨code, stderr⟩ => ?_
  refine .raiseIf_bind (fun _ w h => h.checked.created) fun _ => .get_bind fun w hw => ?_
  refine (checkDigests_ensures (fun _ w h => h.2.checked.created) w.plan.digests).bind
    fun _ => .pure ?_
  rintro w' ⟨⟨rfl, -⟩, hdigests⟩
  refine ⟨hw.checked.planned, fun p hp => ?_, hw.checked.created, fun ref' href' => ?_⟩
  · obtain ⟨q, hq, hqp⟩ := List.mem_map.mp (hw.checked.verified.covered p hp)
    obtain ⟨image, himage, hdigest⟩ := hdigests q hq
    rw [hqp] at himage
    exact ⟨image, himage, q.2, hw.checked.verified.digests q hq, hdigest⟩
  · rw [hw.checked.version_eq] at href' ⊢
    rw [href', Option.getD_some] at href
    subst href
    rw [hw.pulled ⟨.updater, by decide, href'⟩, releaseImage, href', Option.bind_some, pulledImage]

end Verify

/-! ### Containers from verified images -/

/-- Every container so far was created from a verified image. -/
def Safe (env : Environment) (w : World) : Prop := ∀ image ∈ w.created, Signed env image

/-- The references of the plan have verified local images, and only verified images were started. -/
structure Ready (env : Environment) (w : World) : Prop where
  safe : Safe env w
  signed : ∀ p ∈ w.plan.images, ∃ image, w.images p.2 = some image ∧ Signed env image

/-- Compose resolves the services to references of the plan. -/
def Aligned (env : Environment) (w : World) : Prop :=
  ∀ service ref, composeImage env w service = some ref → ∃ service', (service', ref) ∈ w.plan.images

section Containers

variable {c : Ctx} {env : Environment}

/-- A container of a local image is created without asking the registry. -/
theorem createContainer_local {command : Command} {ref : String} {image : Image} {w : World}
    (h : w.images ref = some image) : createContainer env command ref w =
      .ok (some image) { w with created := image :: w.created } := by
  have hensure : ensureImage env command ref w = .ok (some image) w := by simp [ensureImage, h]
  change EStateM.bind (ensureImage env command ref) _ w = _
  rw [EStateM.bind, hensure]
  rfl

/-- A container of a reference of the plan is created from its verified local image. -/
theorem createContainer_ensures {P : World → Prop} {R : Exn → World → Prop} {command : Command}
    {service : Service} {ref : String} (hP : ∀ w, P w → Ready env w ∧ (service, ref) ∈ w.plan.images)
    (hcreated : ∀ w image, P w → Signed env image →
      P { w with created := image :: w.created }) :
    Ensures P (createContainer env command ref)
      (fun r w => P w ∧ ∃ image, r = some image ∧ w.images ref = some image) R := by
  refine ⟨fun w hw => ?_⟩
  obtain ⟨hready, hmem⟩ := hP w hw
  obtain ⟨image, himage, hsigned⟩ := hready.signed _ hmem
  rw [createContainer_local himage]
  exact ⟨hcreated w image hw hsigned, image, rfl, himage⟩

theorem Ready.create {w : World} (h : Ready env w) {image : Image} (hsigned : Signed env image) :
    Ready env { w with created := image :: w.created } :=
  ⟨List.forall_mem_cons.mpr ⟨hsigned, h.safe⟩, h.signed⟩

/-- Such a container leaves what compose resolves the services to. -/
theorem createContainer_aligned {P : World → Prop} {R : Exn → World → Prop} {command : Command}
    {service : Service} {ref : String}
    (hP : ∀ w, P w → (service, ref) ∈ w.plan.images ∧ Ready env w ∧ Aligned env w) :
    Ensures P (createContainer env command ref) (fun _ w => Ready env w ∧ Aligned env w) R := by
  refine ((createContainer_ensures (fun w h => ⟨h.2.1, h.1⟩) fun w image h hsigned => ?_).post
    fun _ _ h => h.1.2).pre hP
  exact ⟨h.1, h.2.1.create hsigned, h.2.2⟩

/-- Compose creates the containers of services from verified images where it resolves them to
references of the plan. -/
theorem createServices_ensures {R : Exn → World → Prop} (command : Command)
    (services : List Service) :
    Ensures (fun w => Ready env w ∧ Aligned env w) (createServices env command services)
      (fun _ w => Ready env w ∧ Aligned env w) R := by
  induction services with
  | nil => exact .pure fun _ h => h
  | cons service services ih =>
    refine .get_bind fun w hw => ?_
    cases href : composeImage env w service with
    | none => exact ih.pre fun _ h => h.2
    | some ref =>
      obtain ⟨service', hmem⟩ := hw.2 service ref href
      exact Ensures.bind (createContainer_aligned fun w' h => ⟨h.1 ▸ hmem, h.2⟩) fun _ => ih

theorem mem_of_plannedUpdater {w : World} {ref : String} (h : plannedUpdater w = some ref) :
    (.updater, ref) ∈ w.plan.images := by
  obtain ⟨p, hp, rfl⟩ := Option.map_eq_some_iff.mp h
  have hupdater : p.1 = .updater := by simpa using List.find?_some hp
  have hmem := List.mem_of_find?_eq_some hp
  rwa [show ((.updater, p.2) : Service × String) = p from Prod.ext hupdater.symm rfl]

end Containers

/-! ### The deploy files of the release -/

section Deploy

variable {c : Ctx} {env : Environment} {files : Path → Option String}
  {images : String → Option Image}

/-- The plan with verified local images, as the steps from `stage` on find it. -/
structure Prepared (c : Ctx) (env : Environment) (files : Path → Option String) (w : World) :
    Prop where
  ready : Ready env w
  env_eq : w.files (.live .env) = files (.live .env)
  composeEnv : w.composeEnv = some w.version
  target : w.plan.target = some w.version
  resolved : resolveTarget c env (currentVersion env (files (.live .env))) = .ok w.version
  planned : ∀ service ref, (service, ref) ∈ w.plan.images ↔
    installedRef env files w.version service = some ref

theorem Pulled.prepared {w : World} (h : Pulled c env files images w) : Prepared c env files w :=
  ⟨⟨by simp [Safe, h.created], h.signed⟩, h.planned.live .env, h.planned.composeEnv,
    h.planned.target, h.planned.resolved, h.planned.planned⟩

/-- What is in the staging directory does not matter to the plan. -/
theorem Prepared.setStaged {w : World} (h : Prepared c env files w)
    (content : InstallFile → Option String) : Prepared c env files (w.setStaged content) :=
  ⟨⟨h.ready.safe, h.ready.signed⟩, h.env_eq, h.composeEnv, h.target, h.resolved, h.planned⟩

/-- The staged compose file is that of the image of the release. -/
structure Staged (c : Ctx) (env : Environment) (files : Path → Option String)
    (images : String → Option Image) (w : World) : Prop where
  prepared : Prepared c env files w
  staged : ∃ image, releaseImage env files images w.version = some image ∧
    w.files (.staged .compose) = releaseCompose env files image

/-- The deploy files are copied from the image of the release. -/
theorem copyDeployFiles_ensures {ref : String} :
    Ensures (fun w => Prepared c env files w ∧ (.updater, ref) ∈ w.plan.images ∧
        w.images ref = releaseImage env files images w.version ∧
        w.files (.staged .compose) = if (env.failure (.clearStaged .stage .compose)).isNone
          then none else files (.staged .compose))
      (copyDeployFiles env ref) (fun _ => Staged c env files images) fun _ => Safe env := by
  refine Ensures.bind (createContainer_ensures (fun w h => ⟨h.1.ready, h.2.1⟩)
    fun w image h hsigned => ?_) fun container => ?_
  · exact ⟨⟨h.1.ready.create hsigned, h.1.env_eq, h.1.composeEnv, h.1.target, h.1.resolved,
      h.1.planned⟩, h.2⟩
  refine Ensures.bind ((runCmd_keeps _).raises
    fun _ w h => h.1.1.ready.safe) fun ⟨code, stderr⟩ => ?_
  cases container with
  | none => exact .throw fun w h => h.1.1.ready.safe
  | some container =>
    refine .raiseIf_bind (fun _ w h => h.1.1.ready.safe) fun _ => ?_
    refine Ensures.bind (Q := fun _ => Staged c env files images) (.update ?_) fun _ => ?_
    · rintro w ⟨⟨hprepared, -, hrelease, hstaged⟩, image, hcontainer, himage⟩
      obtain rfl := Option.some.inj hcontainer
      refine ⟨hprepared.setStaged _, container, ?_, ?_⟩
      · exact hrelease.symm.trans himage
      · change (container.deploy .compose).orElse _ = _
        rw [hstaged, releaseCompose]
    · refine Ensures.bind ((runCmd_keeps _).attempt.raises
        fun _ w (h : Staged c env files images w) => h.prepared.ready.safe) fun copied => ?_
      refine Ensures.bind ((runCmd_keeps _).raises
        fun _ w (h : Staged c env files images w) => h.prepared.ready.safe) fun _ => ?_
      exact (liftExcept_keeps _).raises
        fun _ w (h : Staged c env files images w) => h.prepared.ready.safe

/-- **`stage`.** -/
theorem stepStage_ensures :
    Ensures (Pulled c env files images) (stepStage env)
      (fun _ w => Staged c env files images w ∧ (w.files (.staged .compose)).isSome)
      fun _ => Safe env := by
  have hsafe : ∀ w, Pulled c env files images w → Safe env w := fun w h => h.prepared.ready.safe
  refine .get_bind fun w hw => ?_
  cases hupdater : plannedUpdater w with
  | none => exact .throw fun w h => hsafe w h.2
  | some ref =>
    have hmem := mem_of_plannedUpdater hupdater
    refine Ensures.bind (Q := fun _ w => Prepared c env files w ∧ (.updater, ref) ∈ w.plan.images ∧
        w.images ref = releaseImage env files images w.version ∧
        w.files (.staged .compose) = if (env.failure (.clearStaged .stage .compose)).isNone
          then none else files (.staged .compose)) (.update ?_) fun _ => ?_
    · rintro w' ⟨rfl, hw⟩
      refine ⟨hw.prepared.setStaged _, hmem, ?_, ?_⟩
      · exact hw.release ref ((hw.planned.planned .updater ref).mp hmem)
      · change (if _ then none else w'.files (.staged .compose)) = _
        rw [hw.planned.staged]
    · refine Ensures.bind ((touch_keeps _).raises fun _ w h => h.1.ready.safe) fun _ => ?_
      refine copyDeployFiles_ensures.bind fun ⟨code, stderr⟩ => ?_
      refine .raiseIf_bind (fun _ w h => h.prepared.ready.safe) fun _ => ?_
      refine .get_bind fun w _ => ?_
      refine .raiseIf_bind (fun _ w h => h.2.prepared.ready.safe) fun hmissing => ?_
      have hsome : (w.files (.staged .compose)).isSome := by
        simp [deployFiles] at hmissing
        exact Option.isSome_iff_ne_none.mpr hmissing.1
      refine Ensures.bind (Q := fun _ w => Staged c env files images w ∧
        (w.files (.staged .compose)).isSome) (((runCmd_keeps _).mono (fun _ h => h) ?_
          fun _ w h => h.2.prepared.ready.safe)) fun ⟨code, stderr⟩ => ?_
      · rintro _ w' ⟨rfl, h⟩
        exact ⟨h, hsome⟩
      · exact .raiseIf_bind (fun _ w h => h.1.prepared.ready.safe) fun _ => .pure fun _ h => h

end Deploy

/-! ### The new compose file in place -/

section Install

variable {c : Ctx} {env : Environment} {files : Path → Option String}
  {images : String → Option Image}

/-- The property does not depend on the files and on how their replacement is undone. -/
def FileBlind (I : World → Prop) : Prop :=
  ∀ w files replaced, I w → I { w with files := files, plan := { w.plan with replaced := replaced } }

theorem FileBlind.setFile {I : World → Prop} (hI : FileBlind I) {w : World} (h : I w) (p : Path)
    (content : Option String) : I (w.setFile p content) :=
  hI w _ w.plan.replaced h

theorem copy2_fileBlind {I : World → Prop} (hI : FileBlind I) (op : FileOp) (src dst : Path) :
    Keeps I (copy2 env op src dst) :=
  copy2_ensures (fun _ _ hw _ => hI.setFile hw dst _) (fun _ _ hw _ => hw)
    fun _ _ _ hw _ => hI.setFile hw dst _

theorem remove_fileBlind {I : World → Prop} (hI : FileBlind I) (op : FileOp) (p : Path) :
    Keeps I (remove env op p) := by
  refine ⟨fun w hw => ?_⟩
  unfold remove
  cases env.failure op with
  | none =>
    cases w.files p with
    | none => exact hw
    | some content => exact hI.setFile hw p _
  | some failure => exact hw

/-- The undo changes files and nothing else. -/
theorem revertInstall_fileBlind {I : World → Prop} (hI : FileBlind I) :
    Keeps I (revertInstall env) := by
  have hrestore (entry : Option Path × Path) : Keeps I (restoreFile env entry) := by
    unfold restoreFile
    split
    · exact (remove_fileBlind hI _ _).tryCatch fun _ => .pure _
    · exact (copy2_fileBlind hI _ _ _).tryCatch fun _ => .pure _
    · exact .pure _
  have hloop (entries : List (Option Path × Path)) :
      Keeps I (entries.forM (restoreFile env)) := by
    induction entries with
    | nil => exact .pure _
    | cons entry entries ih => exact (hrestore entry).bind fun _ => ih
  refine Keeps.get.bind fun w => (hloop _).bind fun _ => .update fun w h => ?_
  exact hI w w.files [] h

theorem safe_fileBlind : FileBlind (Safe env) := fun _ _ _ h => h

/-- The plan without what it says about the files in place: the part that a replacement keeps. -/
structure Fixed (env : Environment) (version : String) (planned : List (Service × String))
    (w : World) : Prop where
  ready : Ready env w
  composeEnv : w.composeEnv = some version
  planned : w.plan.images = planned

theorem fixed_fileBlind {version : String} {planned : List (Service × String)} :
    FileBlind (Fixed env version planned) :=
  fun _ _ _ h => ⟨⟨h.ready.safe, h.ready.signed⟩, h.composeEnv, h.planned⟩

/-- The replacement under way: the files `placed` so far are there, `.env` is the old one. -/
structure Placing (env : Environment) (version : String) (planned : List (Service × String))
    (compose dotenv : Option String) (placed : List InstallFile) (w : World) : Prop where
  fixed : Fixed env version planned w
  staged : w.files (.staged .compose) = compose
  env_eq : w.files (.live .env) = dotenv
  placed : .compose ∈ placed → w.files (.live .compose) = compose

/-- The new files are in place. -/
structure Placed (env : Environment) (version : String) (planned : List (Service × String))
    (compose dotenv : Option String) (w : World) : Prop where
  fixed : Fixed env version planned w
  compose_eq : w.files (.live .compose) = compose
  env_eq : w.files (.live .env) = some (writeEnvContent dotenv versionKey version)

variable {version : String} {planned : List (Service × String)} {compose dotenv : Option String}
  {placed : List InstallFile}

theorem Placing.setKept {w : World} (h : Placing env version planned compose dotenv placed w)
    (f : InstallFile) (content : Option String) :
    Placing env version planned compose dotenv placed (w.setFile (.kept f) content) := by
  have hlive (g : InstallFile) : (w.setFile (.kept f) content).files (.live g) = w.files (.live g) := by
    simp [World.setFile]
  refine ⟨fixed_fileBlind.setFile h.fixed _ _, ?_, ?_, fun hmem => ?_⟩
  · simpa [World.setFile] using h.staged
  · rw [hlive, h.env_eq]
  · rw [hlive, h.placed hmem]

/-- Keeping a copy and noting the undo keeps what is in place. -/
theorem keepFile_placing (f : InstallFile) :
    Keeps (Placing env version planned compose dotenv placed) (keepFile env f) := by
  have hnote (src : Option Path) : Keeps (Placing env version planned compose dotenv placed)
      (modify fun w => w.noteReplaced src f : Action PUnit) :=
    .update fun w h => ⟨fixed_fileBlind w w.files _ h.fixed, h.staged, h.env_eq, h.placed⟩
  refine Keeps.get.bind fun w => ?_
  split
  · refine Keeps.bind ?_ fun _ => hnote _
    exact copy2_ensures (fun _ _ hw _ => hw.setKept f _) (fun _ _ hw _ => hw)
      fun _ _ _ hw _ => hw.setKept f _
  · exact hnote _

theorem placeFile_placing {f : InstallFile} (hf : f ≠ .env) :
    Ensures (Placing env version planned compose dotenv placed) (placeFile env f)
      (fun _ => Placing env version planned compose dotenv (placed ++ [f]))
      fun _ => Fixed env version planned := by
  have hfixed : ∀ w, Placing env version planned compose dotenv placed w →
      Fixed env version planned w := fun w h => h.fixed
  refine Ensures.bind ((keepFile_placing f).raises fun _ => hfixed)
    fun _ => ?_
  refine Ensures.bind ((touch_keeps _).raises fun _ => hfixed)
    fun _ => ?_
  refine copy2_ensures (fun w content hw hcontent => ?_) (fun _ _ hw _ => hw.fixed)
    fun w _ _ hw _ => fixed_fileBlind.setFile hw.fixed _ _
  refine ⟨fixed_fileBlind.setFile hw.fixed _ _, ?_, ?_, fun hmem => ?_⟩
  · simpa [World.setFile] using hw.staged
  · have hne : Path.live .env ≠ .live f := fun h => hf (Path.live.inj h).symm
    simpa only [World.setFile, Function.update_of_ne hne] using hw.env_eq
  · by_cases hcompose : f = .compose
    · subst hcompose
      simp only [World.setFile, Function.update_self]
      exact hcontent.symm.trans hw.staged
    · have hne : Path.live .compose ≠ .live f := fun h => hcompose (Path.live.inj h).symm
      simp only [World.setFile, Function.update_of_ne hne]
      exact hw.placed ((List.mem_append.mp hmem).resolve_right (by simp [Ne.symm hcompose]))

theorem writeEnvValue_placed :
    Ensures (Placing env version planned compose dotenv deployFiles)
      (writeEnvValue env versionKey version) (fun _ => Placed env version planned compose dotenv)
      fun _ => Fixed env version planned := by
  have htouch (op : FileOp) : Ensures (Placing env version planned compose dotenv deployFiles)
      (touch env op) (fun _ => Placing env version planned compose dotenv deployFiles)
      fun _ => Fixed env version planned :=
    (touch_keeps op).raises fun _ _ h => h.fixed
  refine (htouch _).bind fun _ => .get_bind fun w hw => .pre ?_ fun _ h => h.2
  refine (htouch _).bind fun _ => ?_
  rw [hw.env_eq]
  refine Ensures.bind (Q := fun _ w => Placing env version planned compose dotenv deployFiles w ∧
    w.files .envTmp = some (writeEnvContent dotenv versionKey version)) (.update fun w h => ?_)
      fun _ => ?_
  · refine ⟨⟨fixed_fileBlind.setFile h.fixed _ _, ?_, ?_, fun hmem => ?_⟩, by simp [World.setFile]⟩
    · simpa [World.setFile] using h.staged
    · simpa [World.setFile] using h.env_eq
    · simpa [World.setFile] using h.placed hmem
  · refine Ensures.bind ((touch_keeps _).raises
      fun _ w h => h.1.fixed) fun _ => .update fun w h => ?_
    refine ⟨fixed_fileBlind.setFile (fixed_fileBlind.setFile h.1.fixed _ _) _ _, ?_, ?_⟩
    · simpa [World.setFile] using h.1.placed (by decide)
    · simpa [World.setFile] using h.2

theorem placeFiles_placed :
    Ensures (Placing env version planned compose dotenv []) (placeFiles env version)
      (fun _ => Placed env version planned compose dotenv) fun _ => Fixed env version planned := by
  have hloop : Ensures (Placing env version planned compose dotenv [])
      (deployFiles.forM (placeFile env))
      (fun _ => Placing env version planned compose dotenv deployFiles)
      fun _ => Fixed env version planned := by
    refine Ensures.forM (I := fun front _ => Placing env version planned compose dotenv front)
      fun front f back hl => placeFile_placing ?_
    have hmem : f ∈ deployFiles := by rw [hl]; simp
    rintro rfl
    exact absurd hmem (by decide)
  refine hloop.bind fun _ => Ensures.bind ?_ fun _ => writeEnvValue_placed
  exact (keepFile_placing .env).raises fun _ _ h => h.fixed

/-- What undoes the replacement and raises has started nothing. -/
theorem revert_throw {I : World → Prop} (hI : FileBlind I) (hsafe : ∀ w, I w → Safe env w)
    {α : Type} {Q : α → World → Prop} (e : Exn) :
    Ensures I (do revertInstall env; throw e : Action α) Q fun _ => Safe env :=
  Ensures.bind ((revertInstall_fileBlind hI).raises
    fun _ w h => hsafe w h) fun _ => .throw fun w h => hsafe w h

theorem placeOrRevert_placed :
    Ensures (Placing env version planned compose dotenv []) (placeOrRevert env version)
      (fun _ => Placed env version planned compose dotenv) fun _ => Safe env := by
  refine Ensures.tryCatch placeFiles_placed fun e => ?_
  split
  · exact revert_throw fixed_fileBlind (fun w h => h.ready.safe) _
  · exact .throw fun w h => h.ready.safe

theorem recheckDataMount_placed :
    Ensures (Placed env version planned compose dotenv) (recheckDataMount env)
      (fun _ => Placed env version planned compose dotenv) fun _ => Safe env := by
  refine Ensures.tryCatch (checkDataMount_keeps .install) fun e => ?_
  split
  · exact (revert_throw safe_fileBlind (fun _ h => h) e).pre fun w h => h.fixed.ready.safe
  · exact .throw fun w h => h.fixed.ready.safe

/-- With the new files in place, compose resolves the services as the release says. -/
theorem Placed.composeImage_eq {w : World} {content : String}
    (h : Placed env version planned (some content) (files (.live .env)) w) (service : Service) :
    composeImage env w service = releaseRef env files content version service := by
  rw [composeImage, composed, h.compose_eq, h.env_eq, h.fixed.composeEnv]
  rfl

/-- **`install`.** Where the release names no other images, compose goes on to resolve the services
to references of the plan. -/
theorem stepInstall_aligned (hkeep : ReleaseKeepsImages c env files images) :
    Ensures (fun w => Staged c env files images w ∧ (w.files (.staged .compose)).isSome)
      (stepInstall c env) (fun _ w => Ready env w ∧ Aligned env w) fun _ => Safe env := by
  refine .of_start fun w₀ ⟨hw₀, hsome⟩ => .get_bind fun w hw => .pre ?_ fun _ h => h.2
  subst hw
  obtain ⟨content, hcontent⟩ := Option.isSome_iff_exists.mp hsome
  rw [hw₀.prepared.target]
  refine Ensures.bind (Q := fun _ => Placing env w.version w.plan.images (some content)
    (files (.live .env)) []) (.update ?_) fun _ => ?_
  · rintro w' rfl
    exact ⟨⟨⟨hw₀.prepared.ready.safe, hw₀.prepared.ready.signed⟩, hw₀.prepared.composeEnv, rfl⟩,
      hcontent, hw₀.prepared.env_eq, by simp⟩
  refine placeOrRevert_placed.bind fun _ => recheckDataMount_placed.bind fun data => ?_
  refine Ensures.bind (Q := fun _ => Placed env w.version w.plan.images (some content)
    (files (.live .env))) (.update fun w' h => ?_) fun _ => .pure fun w' h => ?_
  · exact ⟨⟨⟨h.fixed.ready.safe, h.fixed.ready.signed⟩, h.fixed.composeEnv, h.fixed.planned⟩,
      h.compose_eq, h.env_eq⟩
  · refine ⟨h.fixed.ready, fun service ref href => ?_⟩
    rw [h.composeImage_eq] at href
    obtain ⟨image, himage, hstaged⟩ := hw₀.staged
    obtain ⟨service', href'⟩ := hkeep w.version hw₀.prepared.resolved image himage content
      (hstaged.symm.trans hcontent) service ref href
    rw [h.fixed.planned]
    exact ⟨service', (hw₀.prepared.planned service' ref).mpr href'⟩

/-- **`migrate`.** -/
theorem stepImageMigrate_safe :
    Ensures (fun w => Ready env w ∧ Aligned env w) (stepImageMigrate env)
      (fun _ w => Ready env w ∧ Aligned env w) fun _ => Safe env := by
  have hmigrate : Ensures (fun w => Ready env w ∧ Aligned env w) (stepMigrate env)
      (fun _ w => Ready env w ∧ Aligned env w) fun _ => Safe env := by
    refine (createServices_ensures _ _).bind fun _ => ?_
    refine Ensures.bind ((runCmd_keeps _).raises fun _ w h => h.1.safe) fun ⟨code, stderr⟩ => ?_
    exact .raiseIf_bind (fun _ w h => h.1.safe) fun _ => .pure fun _ h => h
  exact hmigrate.tryCatch fun e => revert_throw safe_fileBlind (fun _ h => h) e

/-- **`restart`.** -/
theorem stepRestart_safe :
    Ensures (fun w => Ready env w ∧ Aligned env w) (stepRestart env)
      (fun _ w => Ready env w ∧ Aligned env w) fun _ => Safe env := by
  refine (createServices_ensures _ _).bind fun _ => ?_
  refine Ensures.bind ((runCmd_keeps _).raises fun _ w h => h.1.safe) fun ⟨code, stderr⟩ => ?_
  exact .raiseIf_bind (fun _ w h => h.1.safe) fun _ => .pure fun _ h => h

/-- **`handoff`.** The helper is the updater image of the plan. -/
theorem stepHandoff_safe :
    Ensures (fun w => Ready env w ∧ Aligned env w) (stepHandoff c env) (fun _ => Safe env)
      fun _ => Safe env := by
  refine .get_bind fun w hw => ?_
  cases hupdater : plannedUpdater w with
  | none => exact .pure fun w h => h.2.1.safe
  | some ref =>
    simp only
    split
    · exact .pure fun w h => h.2.1.safe
    · have hmem := mem_of_plannedUpdater hupdater
      refine Ensures.bind (createContainer_aligned fun w' h => ⟨h.1 ▸ hmem, h.2⟩) fun helper => ?_
      refine Ensures.bind (Q := fun _ w => Ready env w ∧ Aligned env w) ?_ fun _ => ?_
      · unfold handoffServices
        split
        · exact createServices_ensures _ _
        · exact .pure fun _ h => h
      · refine Ensures.bind ((runCmd_keeps _).raises fun _ w h => h.1.safe) fun ⟨code, stderr⟩ => ?_
        split
        · exact .pure fun w h => h.1.safe
        · exact .pure fun w h => h.1.safe

/-- The steps fit together: up to `pull` no container is created, and from then on the references
that are started have verified local images. -/
theorem imageSteps_safe (hverify : c.verify = true) (hkeep : ReleaseKeepsImages c env files images) :
    Chain (fun _ => Safe env) (Safe env) (Fresh env files images) (imageSteps c env) := by
  have hnone : ∀ w : World, w.created = [] → Safe env w := fun w h => by simp [Safe, h]
  refine .cons (stepImagePreflight_fresh.raises fun _ => hnone) ?_
  refine .cons (stepResolve_ensures.raises fun _ => hnone) ?_
  refine .cons ((stepVerify_ensures hverify).raises fun _ => hnone) ?_
  refine .cons (stepBackup_keeps.raises fun _ w h => hnone w h.2.2) ?_
  refine .cons (stepImagePull_ensures.raises fun _ => hnone) ?_
  refine .cons stepStage_ensures (.cons (stepInstall_aligned hkeep) ?_)
  exact .cons stepImageMigrate_safe (.cons stepRestart_safe (.cons stepHandoff_safe .nil))

/-- **Only verified images are started.** With verification on, and with a release whose compose
file names for the services no references but those of the installed one, every container that a run
creates for the application, the frontend or the updater is created from an image with a digest that
`cosign` verified in the run, whatever the registry serves at which moment. -/
theorem created_verified (c : Ctx) (env : Environment) (files : Path → Option String)
    (images : String → Option Image) (hverify : c.verify = true)
    (hkeep : ReleaseKeepsImages c env files images) :
    OnlyVerified env (imageUpdate c env files images) := by
  have hchain := (imageSteps_safe hverify hkeep).execute
    (fresh_start : Fresh env files images (World.start files images))
  have hworld : (imageUpdate c env files images).world =
      (execute (imageSteps c env) (World.start files images)).2 := runSteps_world _ _ _ _ _
  have hsafe : Safe env (execute (imageSteps c env) (World.start files images)).2 := by
    cases hexec : (execute (imageSteps c env) (World.start files images)).1 with
    | none => simpa [hexec] using hchain
    | some name => simpa [hexec] using hchain
  rw [OnlyVerified, hworld]
  exact hsafe

end Install

/-- The sample world with a release whose compose file names the registry `release`. Of the
registry `ghcr.io/jubacch` the images are signed, of any other they are not. -/
def sampleRegistry (release ref : String) : Option Image :=
  some (if "ghcr.io/jubacch/".isPrefixOf ref then sampleImage release
    else { sampleImage release with repoDigests := [] })

/-- The run of an update to such a release in which every command succeeds. -/
def sampleUpdate (release : String) : Outcome :=
  imageUpdate sampleCtx (sampleEnvironment (fun _ => .exits 0 "") (sampleRegistry release))
    sampleFiles fun _ => none

/-- A release of the same registry keeps the images. -/
theorem sampleUpdate_keepsImages : ReleaseKeepsImages sampleCtx
    (sampleEnvironment (fun _ => .exits 0 "") (sampleRegistry "ghcr.io/jubacch")) sampleFiles
    fun _ => none := by
  intro version _ image himage compose hcompose service ref href
  have hdeploy : image.deploy .compose = some "ghcr.io/jubacch" := by
    obtain ⟨ref', -, hserved⟩ := Option.bind_eq_some_iff.mp himage
    obtain rfl := Option.some.inj hserved
    split <;> rfl
  have heq : compose = "ghcr.io/jubacch" := by
    rw [releaseCompose, hdeploy] at hcompose
    exact (Option.some.inj hcompose).symm
  subst heq
  exact ⟨service, href⟩

/-- The update to such a release is done, and has started verified images only. -/
theorem created_verified_same_registry :
    (sampleUpdate "ghcr.io/jubacch").world.created.length = 6 ∧
      OnlyVerified (sampleEnvironment (fun _ => .exits 0 "") (sampleRegistry "ghcr.io/jubacch"))
        (sampleUpdate "ghcr.io/jubacch") :=
  ⟨by decide +kernel, created_verified _ _ _ _ rfl sampleUpdate_keepsImages⟩

theorem sampleDigest_verified :
    verifiedDigest ⟨sampleDigest, none⟩ = .ok (some sampleDigest) := by decide +kernel

/-- **An unverified image is started.** The release's compose file names images of another registry:
the run is done, and has created containers of images that were not verified. -/
theorem unverified_image_started :
    ¬OnlyVerified (sampleEnvironment (fun _ => .exits 0 "") (sampleRegistry "ghcr.io/other"))
      (sampleUpdate "ghcr.io/other") := by
  intro h
  have hrun : (sampleUpdate "ghcr.io/other").world.created.any
      (fun image => !image.hasDigest sampleDigest) = true := by decide +kernel
  obtain ⟨image, himage, hunsigned⟩ := List.any_eq_true.mp hrun
  obtain ⟨digest, ⟨service, stderr, -, hverified⟩, hdigest⟩ := h image himage
  obtain rfl : sampleDigest = digest :=
    Option.some.inj (Except.ok.inj (sampleDigest_verified.symm.trans hverified))
  simp [hdigest] at hunsigned

end Nodeglow.Sidecar
