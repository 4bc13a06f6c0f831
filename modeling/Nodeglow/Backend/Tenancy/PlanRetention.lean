import Mathlib.Data.Int.ConditionallyCompleteOrder
import Mathlib.Order.ConditionallyCompleteLattice.Basic
import Nodeglow.Foundation.Fallible
import Nodeglow.Foundation.Json
import Nodeglow.Foundation.Text

/-!
# Plans and what the cleanup keeps

How many days the nightly cleanup keeps of a tenant's data is decided by four values: what the
tenant has stored, or else the default of the setting; the cap of the installation; and the plan of
the tenant. It is their minimum, where zero and negative numbers count as for ever.

A new plan that lowers what is stored needs a confirmation. But a setting that is not stored, or
that is no number, is not looked at, though its default may be above the plan: log templates are
kept 90 days, and 30 on the smallest plan.

## Main results

* `kept_retentionDays` — the minimum.
* `keepsHistory_iff` — exactly when an update without confirmation shortens nothing.
* `not_keepsHistory` — log templates on the smallest plan.

Source: `ee/backend/nodeglow_ee/tenancy/plans.py`, lines 22–96;
`ee/backend/nodeglow_ee/tenancy/lifecycle.py`, lines 60–69, 220–222 and 398–447;
`backend/services/tenant_jobs.py`, lines 436–503; `backend/services/settings_registry.py`, lines
71–76, 126 and 139–144.
-/

namespace Nodeglow.Tenancy.Retention

open Fallible

/-! ### Settings and caps -/

/-- Python's reading of numbers, and its `repr`. -/
structure Python where
  int : String → Option ℤ
  int_empty : int "" = none
  repr : Json → String

variable (py : Python)

/-- The stored values of an installation and of one tenant; a value may be NULL. -/
structure Settings where
  installation : String → Option (Option String)
  tenant : String → Option (Option String)

/-- `RETENTION_KEYS`, with the defaults of the registry. -/
def retentionDefaults : List (String × ℤ) :=
  [("ping_retention_days", 30), ("proxmox_retention_days", 7), ("integration_retention_days", 7),
    ("incident_event_retention_days", 30), ("template_retention_days", 90),
    ("template_singleton_retention_days", 7)]

def retentionKeys : List String := retentionDefaults.map Prod.fst

/-- `int(raw) if raw not in (None, "") else None`, where nothing is read on an error. -/
def readInt (raw : Option String) : Option ℤ :=
  match raw with
  | none | some "" => none
  | some s => py.int s

/-- `retention_cap`, where the policy is that of a plan. -/
def retentionCap (planCap : Option ℤ) (s : Settings) (key : String) : Option ℤ :=
  let cap := (readInt py (s.installation (key ++ "_max")).join).filter (0 < ·)
  match planCap with
  | some planCap =>
    if 0 < planCap then
      match cap with
      | none => some planCap
      | some cap => some (min cap planCap)
    else cap
  | none => cap

def applyRetentionCap (value : ℤ) : Option ℤ → ℤ
  | none => value
  | some cap => if cap ≤ 0 then value else if value ≤ 0 then cap else min value cap

/-- The number that `retention_days` reads; the text of the default is read as the default. -/
def retentionValue (s : Settings) (key : String) (default : ℤ) : ℤ :=
  match s.tenant key with
  | none => default
  | some none => default
  | some (some raw) => (py.int raw).getD default

/-- `retention_days`. -/
def retentionDays (planCap : Option ℤ) (s : Settings) (key : String) (default : ℤ) : ℤ :=
  applyRetentionCap (retentionValue py s key default) (retentionCap py planCap s key)

/-! ### Plans -/

structure Plan where
  key : String
  name : String
  retentionDays : ℤ
deriving DecidableEq, Repr

/-- `PLANS`. -/
def plans : List Plan :=
  [⟨"standard", "Standard", 30⟩, ⟨"professional", "Professional", 90⟩,
    ⟨"enterprise", "Enterprise", 365⟩]

def getPlan (key : String) : Option Plan := plans.find? fun p => p.key = key

/-- `retention_policy`. -/
def retentionPolicy (plan : Option String) : Option ℤ :=
  (getPlan (plan.getD "")).map Plan.retentionDays

/-- What a plan would lower: the key, the value and the days of the plan. -/
def retentionReductions (s : Settings) (plan : Plan) : List (String × ℤ × ℤ) :=
  retentionKeys.filterMap fun key => do
    let value ← readInt py (s.tenant key).join
    if value ≤ 0 ∨ plan.retentionDays < value then some (key, value, plan.retentionDays) else none

def setTenantSetting (s : Settings) (key value : String) : Settings :=
  { s with tenant := Function.update s.tenant key (some (some value)) }

/-- `clamp_tenant_retention`. -/
def clampTenantRetention (s : Settings) (plan : Plan) : Settings × List (String × String) :=
  let changed := (retentionReductions py s plan).map fun r => (r.1, toString r.2.2)
  (changed.foldl (fun s c => setTenantSetting s c.1 c.2) s, changed)

/-! ### Updating a tenant -/

structure Tenant where
  id : ℤ
  name : String
  plan : Option String
deriving DecidableEq, Repr

structure LifecycleError where
  message : String
  status : ℕ
  code : Option String
  retentionLowered : List (String × ℤ × ℤ)
deriving DecidableEq, Repr

def LifecycleError.refused (message : String) : LifecycleError := ⟨message, 400, none, []⟩

/-- What the audit log says about an update. -/
structure Changes where
  name : Option (String × String)
  plan : Option (Option String × Option String)
  retentionLowered : List (String × String)

/-- A tenant with its settings, and what has been changed. -/
structure Update where
  tenant : Tenant
  settings : Settings
  changes : Changes

/-- `require_licence`. -/
def requireLicence (licence : Option LifecycleError) : Except LifecycleError Unit :=
  match licence with
  | some error => .error error
  | none => .ok ()

/-- A plan, and not the removal of one. -/
def givesPlan (body : Json) : Bool :=
  match body.get? "plan" with
  | none | some .null => false
  | some _ => true

/-- The default tenant gets no plan. -/
def refuseDefault (t : Tenant) (body : Json) : Except LifecycleError Unit :=
  if givesPlan body = true ∧ t.id = 1 then
    .error ⟨"The default tenant cannot be given a plan.", 409, some "default_tenant", []⟩
  else .ok ()

/-- The name of a request. -/
def rename (u : Update) (body : Json) : Except LifecycleError Update :=
  match body.get? "name" with
  | none => .ok u
  | some value =>
    let name := (value.str?.map Text.strip).getD ""
    if name = "" ∨ 128 < name.length then
      .error (.refused "Give the tenant a name (up to 128 characters).")
    else if name = u.tenant.name then .ok u
    else
      .ok
        { tenant := { u.tenant with name := name }
          settings := setTenantSetting u.settings "site_name" name
          changes := { u.changes with name := some (u.tenant.name, name) } }

/-- `plans.get_plan(body.get("plan"))`. -/
def requestedPlan (value : Json) : Option Plan := value.str?.bind getPlan

def confirmed (body : Json) : Bool :=
  match body.get? "confirm_retention_lowering" with
  | some (.bool b) => b
  | _ => false

def wouldLower (plan : Plan) (t : Tenant) (lowered : List (String × ℤ × ℤ)) : LifecycleError where
  message := "The plan " ++ plan.name ++ " keeps data " ++ toString plan.retentionDays ++
    " days; " ++ toString lowered.length ++ " retention setting(s) of " ++ t.name ++
    " are higher and would " ++
    "be lowered, and the nightly cleanup would then delete the older history " ++
    "for good. Confirm to go ahead."
  status := 409
  code := some "retention_would_lower"
  retentionLowered := lowered

/-- The plan of a request. -/
def assignPlan (u : Update) (body : Json) : Except LifecycleError Update :=
  match body.get? "plan" with
  | none => .ok u
  | some .null =>
    if u.tenant.plan = none then .ok u
    else
      .ok
        { u with
          tenant := { u.tenant with plan := none }
          changes := { u.changes with plan := some (u.tenant.plan, none) } }
  | some value =>
    match requestedPlan value with
    | none => .error (.refused ("Unknown plan " ++ py.repr value ++ "."))
    | some plan =>
      if u.tenant.plan = some plan.key then .ok u
      else
        let lowered := retentionReductions py u.settings plan
        if lowered ≠ [] ∧ confirmed body = false then .error (wouldLower plan u.tenant lowered)
        else
          let clamped := clampTenantRetention py u.settings plan
          .ok
            { tenant := { u.tenant with plan := some plan.key }
              settings := clamped.1
              changes :=
                { u.changes with
                  plan := some (u.tenant.plan, some plan.key)
                  retentionLowered := clamped.2 } }

/-- `update_tenant`; `licence` is what the check of the licence raises. -/
def updateTenant (licence : Option LifecycleError) (t : Tenant) (s : Settings) (body : Json) :
    Except LifecycleError Update := do
  requireLicence licence
  refuseDefault t body
  let renamed ← rename ⟨t, s, ⟨none, none, []⟩⟩ body
  assignPlan py renamed body

/-! ### The minimum -/

/-- Days, with for ever as the greatest. -/
def kept (days : ℤ) : WithTop ℤ := if days ≤ 0 then ⊤ else days

def keptCap : Option ℤ → WithTop ℤ
  | none => ⊤
  | some cap => kept cap

/-- The cap of the installation for a key. -/
def installationKept (s : Settings) (key : String) : WithTop ℤ :=
  keptCap (readInt py (s.installation (key ++ "_max")).join)

theorem kept_of_pos {days : ℤ} (h : 0 < days) : kept days = days := if_neg (not_le.mpr h)

theorem kept_of_nonpos {days : ℤ} (h : days ≤ 0) : kept days = ⊤ := if_pos h

theorem kept_min {a b : ℤ} (ha : 0 < a) (hb : 0 < b) : kept (min a b) = min (kept a) (kept b) := by
  rw [kept_of_pos (lt_min ha hb), kept_of_pos ha, kept_of_pos hb, WithTop.coe_min]

theorem kept_applyRetentionCap (value : ℤ) (cap : Option ℤ) :
    kept (applyRetentionCap value cap) = min (kept value) (keptCap cap) := by
  cases cap with
  | none => exact (min_eq_left le_top).symm
  | some cap =>
    by_cases hcap : cap ≤ 0
    · simp [applyRetentionCap, keptCap, hcap, kept_of_nonpos hcap]
    · by_cases hvalue : value ≤ 0
      · simp [applyRetentionCap, keptCap, hcap, hvalue, kept_of_nonpos hvalue]
      · simpa [applyRetentionCap, keptCap, hcap, hvalue] using
          kept_min (not_le.mp hvalue) (not_le.mp hcap)

theorem keptCap_filter (cap : Option ℤ) : keptCap (cap.filter (0 < ·)) = keptCap cap := by
  cases cap with
  | none => rfl
  | some cap =>
    rw [Option.filter_some]
    split
    · rfl
    · rename_i hcap
      exact (kept_of_nonpos (not_lt.mp (by simpa using hcap))).symm

variable {py} {planCap : Option ℤ} {s : Settings} {key : String}

theorem keptCap_retentionCap : keptCap (retentionCap py planCap s key) =
    min (installationKept py s key) (keptCap planCap) := by
  rw [installationKept, ← keptCap_filter (readInt py (s.installation (key ++ "_max")).join)]
  unfold retentionCap
  cases planCap with
  | none => exact (min_eq_left le_top).symm
  | some planCap =>
    dsimp only
    by_cases hplan : 0 < planCap
    · rw [if_pos hplan]
      cases hcap : (readInt py (s.installation (key ++ "_max")).join).filter (0 < ·) with
      | none => exact (min_eq_right le_top).symm
      | some cap => exact kept_min (by simpa using (Option.filter_eq_some_iff.mp hcap).2) hplan
    · have hforever : keptCap (some planCap) = ⊤ := kept_of_nonpos (not_lt.mp hplan)
      rw [if_neg hplan, hforever, min_eq_left le_top]

/-- **What the cleanup keeps** is the minimum of the value, the installation's cap and the plan. -/
theorem kept_retentionDays (default : ℤ) : kept (retentionDays py planCap s key default) =
    min (kept (retentionValue py s key default))
      (min (installationKept py s key) (keptCap planCap)) := by
  rw [retentionDays, kept_applyRetentionCap, keptCap_retentionCap]

/-! ### What an update does -/

variable {plan : Plan} {t : Tenant} {u u' : Update} {body : Json}

theorem retentionReductions_eq_nil (h : retentionReductions py s plan = [])
    (hkey : key ∈ retentionKeys) {value : ℤ}
    (hvalue : readInt py (s.tenant key).join = some value) :
    0 < value ∧ value ≤ plan.retentionDays := by
  have hnone := List.filterMap_eq_nil_iff.mp h key hkey
  rw [hvalue] at hnone
  simp only [Option.bind_eq_bind, Option.bind_some, ite_eq_right_iff, reduceCtorEq, imp_false,
    not_or, not_le, not_lt] at hnone
  exact hnone

theorem retentionValue_eq (default : ℤ) : retentionValue py s key default =
    (readInt py (s.tenant key).join).getD default := by
  unfold retentionValue
  cases s.tenant key with
  | none => rfl
  | some raw =>
    cases raw with
    | none => rfl
    | some raw =>
      by_cases hraw : raw = ""
      · subst hraw
        exact congrArg (Option.getD · default) py.int_empty
      · simp [readInt]

theorem rename_eq_ok (h : rename u body = .ok u') : u'.tenant.plan = u.tenant.plan ∧
    u'.settings.installation = u.settings.installation ∧
      ∀ key ∈ retentionKeys, u'.settings.tenant key = u.settings.tenant key := by
  unfold rename at h
  split at h
  · obtain rfl := Except.ok.inj h
    exact ⟨rfl, rfl, fun _ _ => rfl⟩
  · dsimp only at h
    split at h
    · cases h
    · split at h
      · obtain rfl := Except.ok.inj h
        exact ⟨rfl, rfl, fun _ _ => rfl⟩
      · obtain rfl := Except.ok.inj h
        refine ⟨rfl, rfl, fun key hkey => Function.update_of_ne ?_ _ _⟩
        rintro rfl
        exact absurd hkey (by decide)

theorem requestedPlan_eq_some {value : Json} (h : requestedPlan value = some plan) :
    plan ∈ plans ∧ value = .str plan.key := by
  obtain ⟨key, hkey, hplan⟩ := Option.bind_eq_some_iff.mp h
  have hfound : plan.key = key := by simpa using List.find?_some hplan
  refine ⟨List.mem_of_find?_eq_some hplan, ?_⟩
  cases value with
  | str s => rw [hfound, Option.some.inj hkey]
  | _ => cases hkey

/-- **What becomes of the plan** without a confirmation: it stays, or is removed, or it is one that
lowers nothing that is stored. -/
theorem assignPlan_eq_ok (hconfirmed : confirmed body = false) (h : assignPlan py u body = .ok u') :
    u'.settings = u.settings ∧
      (u'.tenant.plan = u.tenant.plan ∧
          (∀ plan, body.get? "plan" = some (.str plan) → u.tenant.plan = some plan) ∨
        u'.tenant.plan = none ∧ body.get? "plan" = some .null ∨
        ∃ plan ∈ plans, body.get? "plan" = some (.str plan.key) ∧ u.tenant.plan ≠ some plan.key ∧
          u'.tenant.plan = some plan.key ∧ retentionReductions py u.settings plan = []) := by
  unfold assignPlan at h
  split at h
  · rename_i hplan
    obtain rfl := Except.ok.inj h
    refine ⟨rfl, .inl ⟨rfl, fun plan heq => ?_⟩⟩
    rw [hplan] at heq
    cases heq
  · rename_i hplan
    split at h
    · rename_i hnone
      obtain rfl := Except.ok.inj h
      exact ⟨rfl, .inr (.inl ⟨hnone, hplan⟩)⟩
    · obtain rfl := Except.ok.inj h
      exact ⟨rfl, .inr (.inl ⟨rfl, hplan⟩)⟩
  · rename_i value _ hbody
    split at h
    · cases h
    · rename_i plan hplan
      obtain ⟨hmem, rfl⟩ := requestedPlan_eq_some hplan
      split at h
      · rename_i hsame
        obtain rfl := Except.ok.inj h
        refine ⟨rfl, .inl ⟨rfl, fun plan' heq => ?_⟩⟩
        rw [hbody] at heq
        rw [hsame, Json.str.inj (Option.some.inj heq)]
      · rename_i hnew
        dsimp only at h
        split at h
        · cases h
        · rename_i hlowered
          have hnil : retentionReductions py u.settings plan = [] := by
            by_contra hne
            exact hlowered ⟨hne, hconfirmed⟩
          obtain rfl := Except.ok.inj h
          refine ⟨?_, .inr (.inr ⟨plan, hmem, hbody, hnew, rfl, hnil⟩)⟩
          simp [clampTenantRetention, hnil]

/-- The renaming and the plan of an update. -/
theorem updateTenant_eq_ok {licence : Option LifecycleError}
    (h : updateTenant py licence t s body = .ok u) :
    ∃ renamed, rename ⟨t, s, ⟨none, none, []⟩⟩ body = .ok renamed ∧
      assignPlan py renamed body = .ok u := by
  obtain ⟨_, -, h⟩ := bind_eq_ok.mp h
  obtain ⟨_, -, h⟩ := bind_eq_ok.mp h
  exact bind_eq_ok.mp h

/-! ### When nothing is shortened -/

/-- The cleanup keeps no less than before the update. -/
def KeepsHistory (py : Python) (t : Tenant) (s : Settings) (u : Update) : Prop :=
  ∀ k ∈ retentionDefaults, kept (retentionDays py (retentionPolicy t.plan) s k.1 k.2) ≤
    kept (retentionDays py (retentionPolicy u.tenant.plan) u.settings k.1 k.2)

/-- A tenant that comes to the smallest plan has stored how long templates are kept, or the
installation keeps them no longer than the plan. -/
def TemplatesCovered (py : Python) (t : Tenant) (s : Settings) (body : Json) : Prop :=
  body.get? "plan" = some (.str "standard") → t.plan ≠ some "standard" →
    (readInt py (s.tenant "template_retention_days").join).isSome = true ∨
      ∃ cap, readInt py (s.installation "template_retention_days_max").join = some cap ∧
        0 < cap ∧ cap ≤ 30

theorem kept_retentionDays_le_iff {old new : Option ℤ} {default : ℤ} :
    kept (retentionDays py old s key default) ≤ kept (retentionDays py new s key default) ↔
      kept (retentionValue py s key default) ≤ keptCap new ∨
        installationKept py s key ≤ keptCap new ∨ keptCap old ≤ keptCap new := by
  rw [kept_retentionDays, kept_retentionDays, le_min_iff, le_min_iff, ← min_le_iff, ← min_le_iff]
  constructor
  · exact fun h => h.2.2
  · exact fun h => ⟨min_le_left _ _, (min_le_right _ _).trans (min_le_left _ _), h⟩

theorem keptCap_le_coe_iff {cap : Option ℤ} {days : ℤ} :
    keptCap cap ≤ days ↔ ∃ c, cap = some c ∧ 0 < c ∧ c ≤ days := by
  cases cap with
  | none => simp [keptCap]
  | some c =>
    by_cases hc : 0 < c
    · simp [keptCap, kept_of_pos hc, hc]
    · simp [keptCap, kept_of_nonpos (not_lt.mp hc), hc]

theorem retentionPolicy_of_mem (h : plan ∈ plans) :
    retentionPolicy (some plan.key) = some plan.retentionDays := by
  revert plan
  decide

/-- Only the smallest plan keeps 30 days or less. -/
theorem eq_standard_of_keptCap_le {key : Option String}
    (h : keptCap (retentionPolicy key) ≤ (30 : ℤ)) : key = some "standard" := by
  obtain ⟨days, hpolicy, -, hdays⟩ := keptCap_le_coe_iff.mp h
  obtain ⟨plan, hplan, rfl⟩ := Option.map_eq_some_iff.mp hpolicy
  have hmem := List.mem_of_find?_eq_some hplan
  have hfound : plan.key = key.getD "" := by simpa using List.find?_some hplan
  have hstandard : ∀ plan ∈ plans, plan.retentionDays ≤ 30 → plan.key = "standard" := by
    decide
  rw [hstandard plan hmem hdays] at hfound
  cases key with
  | none => exact absurd hfound (by decide)
  | some key => rw [hfound, Option.getD_some]

theorem retentionDays_congr {s' : Settings} (hinstallation : s'.installation = s.installation)
    (htenant : s'.tenant key = s.tenant key) (default : ℤ) :
    retentionDays py planCap s' key default = retentionDays py planCap s key default := by
  simp only [retentionDays, retentionValue, retentionCap, hinstallation, htenant]

theorem retentionReductions_congr {s' : Settings}
    (h : ∀ key ∈ retentionKeys, s'.tenant key = s.tenant key) :
    retentionReductions py s' plan = retentionReductions py s plan :=
  List.filterMap_congr fun key hkey => by rw [h key hkey]

/-- A plan that lowers nothing that is stored shortens nothing, but for the templates. -/
theorem keeps_iff_of_reductions (hplan : plan ∈ plans) (hnew : t.plan ≠ some plan.key)
    (hnil : retentionReductions py s plan = []) :
    (∀ k ∈ retentionDefaults, kept (retentionDays py (retentionPolicy t.plan) s k.1 k.2) ≤
        kept (retentionDays py (some plan.retentionDays) s k.1 k.2)) ↔
      (plan.key = "standard" →
        (readInt py (s.tenant "template_retention_days").join).isSome = true ∨
          installationKept py s "template_retention_days" ≤ (30 : ℤ)) := by
  have hplans : ∀ plan ∈ plans, 30 ≤ plan.retentionDays ∧
      (plan.key = "standard" → plan.retentionDays = 30) ∧
        (plan.key ≠ "standard" → 90 ≤ plan.retentionDays) := by
    decide
  obtain ⟨hmin, hstandard, hlarger⟩ := hplans plan hplan
  have hcap : keptCap (some plan.retentionDays) = plan.retentionDays := kept_of_pos (by omega)
  simp only [kept_retentionDays_le_iff, hcap]
  constructor
  · intro hall hkey
    have htemplate := hall ("template_retention_days", 90) (by decide)
    rw [hstandard hkey] at htemplate
    rcases htemplate with hvalue | hinstallation | hold
    · left
      by_contra hnone
      rw [retentionValue_eq, Option.not_isSome_iff_eq_none.mp hnone, Option.getD_none,
        kept_of_pos (by decide)] at hvalue
      exact absurd (WithTop.coe_le_coe.mp hvalue) (by decide)
    · exact .inr hinstallation
    · rw [hkey] at hnew
      exact absurd (eq_standard_of_keptCap_le hold) hnew
  · intro hcovered k hk
    have hkey : k.1 ∈ retentionKeys := List.mem_map_of_mem hk
    rw [retentionValue_eq]
    cases hvalue : readInt py (s.tenant k.1).join with
    | some value =>
      obtain ⟨hpos, hle⟩ := retentionReductions_eq_nil hnil hkey hvalue
      left
      rw [Option.getD_some, kept_of_pos hpos]
      exact WithTop.coe_le_coe.mpr hle
    | none =>
      rw [Option.getD_none]
      have hdefaults : ∀ k ∈ retentionDefaults, 0 < k.2 ∧
          (k.2 ≤ 30 ∨ k.1 = "template_retention_days" ∧ k.2 = 90) := by
        decide
      obtain ⟨hpos, hdefault⟩ := hdefaults k hk
      rw [kept_of_pos hpos]
      rcases hdefault with hsmall | ⟨htemplate, hninety⟩
      · exact .inl (WithTop.coe_le_coe.mpr (by omega))
      · by_cases hsmallest : plan.key = "standard"
        · rcases hcovered hsmallest with hsome | hinstallation
          · rw [← htemplate, hvalue] at hsome
            cases hsome
          · rw [htemplate, hstandard hsmallest]
            exact .inr (.inl hinstallation)
        · exact .inl (WithTop.coe_le_coe.mpr (by have := hlarger hsmallest; omega))

/-- **When an update without confirmation shortens nothing.** -/
theorem keepsHistory_iff {licence : Option LifecycleError} (hconfirmed : confirmed body = false)
    (h : updateTenant py licence t s body = .ok u) :
    KeepsHistory py t s u ↔ TemplatesCovered py t s body := by
  obtain ⟨renamed, hrename, hassign⟩ := updateTenant_eq_ok h
  obtain ⟨hplan, hinstallation, htenant⟩ := rename_eq_ok hrename
  obtain ⟨hsettings, houtcome⟩ := assignPlan_eq_ok hconfirmed hassign
  have hsame : KeepsHistory py t s u ↔
      ∀ k ∈ retentionDefaults, kept (retentionDays py (retentionPolicy t.plan) s k.1 k.2) ≤
        kept (retentionDays py (retentionPolicy u.tenant.plan) s k.1 k.2) := by
    refine forall₂_congr fun k hk => ?_
    rw [hsettings, retentionDays_congr hinstallation (htenant k.1 (List.mem_map_of_mem hk))]
  rw [hsame]
  dsimp only at hplan
  rcases houtcome with
    ⟨hstays, hbody⟩ | ⟨hremoved, hbody⟩ | ⟨plan, hmem, hbody, hnew, hassigned, hnil⟩
  · refine iff_of_true (fun k hk => ?_) fun hstandard hne => ?_
    · rw [hstays, hplan]
    · exact absurd (hplan ▸ hbody _ hstandard) hne
  · refine iff_of_true (fun k hk => ?_) fun hstandard => ?_
    · rw [hremoved, kept_retentionDays_le_iff]
      exact .inr (.inr le_top)
    · rw [hbody] at hstandard
      cases hstandard
  · rw [hplan] at hnew
    rw [retentionReductions_congr htenant] at hnil
    rw [hassigned, retentionPolicy_of_mem hmem, keeps_iff_of_reductions hmem hnew hnil]
    unfold TemplatesCovered
    rw [hbody, installationKept, keptCap_le_coe_iff]
    constructor
    · intro hcovered heq hne
      exact hcovered (Json.str.inj (Option.some.inj heq))
    · intro hcovered heq
      exact hcovered (by rw [heq]) (heq ▸ hnew)

/-! ### Log templates on the smallest plan -/

/-- Numbers without a sign. -/
def Python.sample : Python where
  int raw :=
    if raw.toList ≠ [] ∧ raw.toList.all Text.isDecimal then some (Text.decimalInt raw.toList)
    else none
  int_empty := rfl
  repr _ := "None"

def sampleTenant : Tenant := ⟨2, "Beta", some "professional"⟩

def sampleSettings : Settings where
  installation _ := none
  tenant
    | "integration_retention_days" => some (some "20")
    | _ => none

/-- Log templates were kept 90 days. -/
def standardBody : Json := .obj [("plan", .str "standard")]

def standardUpdate : Update where
  tenant := { sampleTenant with plan := some "standard" }
  settings := sampleSettings
  changes := ⟨none, some (some "professional", some "standard"), []⟩

theorem updateTenant_standard :
    updateTenant .sample none sampleTenant sampleSettings standardBody = .ok standardUpdate := by
  rfl

theorem keepsHistory_iff_standard :
    KeepsHistory .sample sampleTenant sampleSettings standardUpdate ↔
      TemplatesCovered .sample sampleTenant sampleSettings standardBody :=
  keepsHistory_iff rfl updateTenant_standard

/-- **Without a confirmation** 60 days of log templates are given up. -/
theorem not_keepsHistory :
    updateTenant .sample none sampleTenant sampleSettings standardBody = .ok standardUpdate ∧
      ¬KeepsHistory .sample sampleTenant sampleSettings standardUpdate := by
  refine ⟨updateTenant_standard, fun hkeeps => ?_⟩
  have htemplates := hkeeps ("template_retention_days", 90) (by decide)
  have hbefore : retentionDays .sample (retentionPolicy sampleTenant.plan) sampleSettings
      "template_retention_days" 90 = 90 := by
    decide +kernel
  have hafter : retentionDays .sample (retentionPolicy standardUpdate.tenant.plan)
      standardUpdate.settings "template_retention_days" 90 = 30 := by
    decide +kernel
  rw [hbefore, hafter, kept_of_pos (by decide), kept_of_pos (by decide)] at htemplates
  exact absurd (WithTop.coe_le_coe.mp htemplates) (by decide)

end Nodeglow.Tenancy.Retention
