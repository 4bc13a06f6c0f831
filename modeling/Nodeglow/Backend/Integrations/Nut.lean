import Mathlib.Data.List.Infix
import Nodeglow.Backend.Incidents.Incident
import Nodeglow.Foundation.Text

/-!
# The variables of a UPS

A NUT server lists the variables of a UPS, one in a line. The status is a text of flags: that the
UPS runs on battery, that the battery is low, that it is to be replaced. What is stored of it is the
first flag, and the alerts are derived from what is stored. So a battery that runs low, which is
reported behind the flag for running on battery, raises no alert (`not_alertsTell`).

Floating-point numbers are a parameter.

## Main results

* `rawVars_apply` — the value of a variable.
* `alertsTell_iff` — the alerts tell the flags exactly when the first flag tells them.

Source: `backend/integrations/nut.py`, lines 10–71 and 171–204; `backend/integrations/_base.py`,
lines 62–93 and 131–142.
-/

namespace Nodeglow.Integrations.Nut

open Text (words splitMax)

/-- What Python does with numbers: `float` of a text, `int` of a number, if it is finite, an integer
as a number, `>=`, and the text of a number. -/
structure Python (F : Type) extends Text.Lower where
  float : String → Option F
  int : F → Option ℤ
  ofNat : ℕ → F
  ge : F → F → Bool
  str : F → String

variable {F : Type} (py : Python F)

/-! ### The listed variables -/

/-- `_STATUS_LABELS`. -/
def statusLabels : List (String × String) :=
  [("OL", "On Line"), ("OB", "On Battery"), ("LB", "Low Battery"), ("HB", "High Battery"),
    ("RB", "Replace Battery"), ("CHRG", "Charging"), ("DISCHRG", "Discharging"),
    ("BYPASS", "Bypass"), ("OFF", "Offline"), ("OVER", "Overloaded"), ("TRIM", "Trimming"),
    ("BOOST", "Boosting"), ("FSD", "Forced Shutdown")]

/-- `_safe_float`. -/
def safeFloat (val : Option String) : Option F := val.bind py.float

/-- `_safe_int`; no value where `int` raises, of a number that is not finite. -/
def safeInt (val : Option String) : Option (Option ℤ) :=
  match safeFloat py val with
  | none => some none
  | some f => (py.int f).map some

/-- The name and the value in a line, if it is one of a variable. -/
def parseVar (line : String) : Option (String × String) :=
  match splitMax ' ' 3 line.toList with
  | [kind, _, name, value] =>
    if kind = "VAR".toList then
      some (String.ofList name, Text.trimMatches (· = '"') (String.ofList value))
    else none
  | _ => none

/-- The variables in a list of lines; of a name that comes twice, the last value counts. -/
def rawVars (lines : List String) : String → Option String :=
  (lines.filterMap parseVar).foldl (fun raw v => Function.update raw v.1 (some v.2)) fun _ => none

/-- `x or y` of two texts. -/
def orElse (x y : Option String) : Option String := (x.filter (· ≠ "")).or y

/-- What `parse_nut_vars` returns. -/
structure NutData (F : Type) where
  status : String
  statusLabel : String
  onBattery : Bool
  batteryPct : F
  runtimeS : ℤ
  loadPct : F
  inputVoltage : F
  outputVoltage : F
  batteryVoltage : F
  temp : Option F
  powerW : Option F
  manufacturer : String
  model : String
  serial : String
  firmware : String
  raw : String → Option String

/-- `parse_nut_vars`; no value where it raises. -/
def parseNutVars (lines : List String) : Option (NutData F) :=
  let raw := rawVars lines
  let tokens := words ((raw "ups.status").getD "")
  let float (name : String) : F := (safeFloat py (raw name)).getD (py.ofNat 0)
  (safeInt py (raw "battery.runtime")).map fun runtime =>
    { status := tokens.headD ""
      statusLabel :=
        if tokens = [] then "Unknown"
        else " + ".intercalate (tokens.map fun t => (statusLabels.lookup t).getD t)
      onBattery := "OB" ∈ tokens
      batteryPct := float "battery.charge"
      runtimeS := runtime.getD 0
      loadPct := float "ups.load"
      inputVoltage := float "input.voltage"
      outputVoltage := float "output.voltage"
      batteryVoltage := float "battery.voltage"
      temp := safeFloat py (orElse (raw "battery.temperature") (raw "ups.temperature"))
      powerW := safeFloat py (orElse (raw "ups.power") (raw "ups.realpower"))
      manufacturer := (raw "ups.mfr").getD ""
      model := (raw "ups.model").getD ""
      serial := (raw "ups.serial").getD ""
      firmware := (raw "ups.firmware").getD ""
      raw := raw }

/-! ### The alerts -/

/-- `Alert`. -/
structure Alert where
  severity : Incidents.Severity
  title : String
  detail : String
deriving DecidableEq, Repr

/-- `NutIntegration.threshold`: the value of the tenant, else the default. -/
def threshold (overrides : String → Option F) (key : String) (default : ℕ) : F :=
  (overrides key).getD (py.ofNat default)

/-- The substring `onbatt` or the word `ob`. -/
def saysOnBattery (status : String) : Bool :=
  "onbatt".toList <:+: status.toList || "ob" ∈ words status

/-- `NutIntegration.parse_alerts`. -/
def parseAlerts (overrides : String → Option F) (data : NutData F) : List Alert :=
  let status := py.lower data.status
  (if saysOnBattery status then
      [⟨.critical, "UPS on battery",
        "Status: " ++ data.status ++ " – Charge: " ++ py.str data.batteryPct ++ "%"⟩]
    else []) ++
  (if "lb" ∈ words status then
      [⟨.critical, "UPS low battery", "Battery: " ++ py.str data.batteryPct ++ "% – Runtime: " ++
        toString data.runtimeS ++ "s"⟩]
    else []) ++
  (if "rb" ∈ words status then
      [⟨.warning, "UPS battery needs replacement", "Model: " ++ data.model⟩]
    else []) ++
  (if py.ge data.loadPct (threshold py overrides "load_warn_pct" 90) then
      [⟨if py.ge data.loadPct (threshold py overrides "load_crit_pct" 95) then .critical
        else .warning, "UPS high load", "Load: " ++ py.str data.loadPct ++ "%"⟩]
    else [])

/-! ### What the alerts say -/

/-- The last value that is listed for the status. -/
def statusValue (lines : List String) : String :=
  (((lines.filterMap parseVar).filter fun v => v.1 = "ups.status").getLast?.map Prod.snd).getD ""

/-- The flags of the status. -/
def statusTokens (lines : List String) : List String := words (statusValue lines)

/-- The flags that an alert is about, with its title. -/
def flagTitles : List (String × String) :=
  [("OB", "UPS on battery"), ("LB", "UPS low battery"), ("RB", "UPS battery needs replacement")]

/-- **The alerts say what the flags say.** -/
def AlertsTell (overrides : String → Option F) (lines : List String) : Prop :=
  ∃ data, parseNutVars py lines = some data ∧ ∀ flag ∈ flagTitles,
    flag.2 ∈ (parseAlerts py overrides data).map Alert.title ↔ flag.1 ∈ statusTokens lines

/-- A first flag is taken for another one: it is the same in lower case, or has the text `onbatt` in
it and is taken for the flag `OB`. -/
def Spells (flag first : String) : Prop :=
  Text.asciiLower flag ∈ words (py.lower first) ∨
    flag = "OB" ∧ "onbatt".toList <:+: (py.lower first).toList

/-- The first flag tells the others: of `OB`, `LB` and `RB` none stands behind a flag that is not
taken for it, and none is missing where the first flag is taken for it. And the runtime, if it is a
number, is finite. -/
structure FirstTells (lines : List String) : Prop where
  behind : ∀ flag ∈ flagTitles, flag.1 ∈ (statusTokens lines).tail →
    Spells py flag.1 ((statusTokens lines).headD "")
  spelled : ∀ flag ∈ flagTitles, Spells py flag.1 ((statusTokens lines).headD "") →
    flag.1 ∈ statusTokens lines
  runtime : ∀ f, safeFloat py (rawVars lines "battery.runtime") = some f → (py.int f).isSome

/-! ### The variables of a list -/

/-- A variable as a server lists it. -/
def varLine (ups name value : String) : String :=
  "VAR " ++ ups ++ " " ++ name ++ " \"" ++ value ++ "\""

theorem rawVars_apply (lines : List String) (name : String) :
    rawVars lines name =
      ((lines.filterMap parseVar).filter fun v => v.1 = name).getLast?.map Prod.snd := by
  unfold rawVars
  induction lines.filterMap parseVar using List.reverseRecOn with
  | nil => rfl
  | append_singleton vars v ih =>
    rw [List.foldl_append, List.foldl_cons, List.foldl_nil, List.filter_append]
    by_cases hname : v.1 = name
    · subst hname
      simp
    · rw [Function.update_of_ne (Ne.symm hname), ih]
      simp [hname]

theorem statusTokens_eq (lines : List String) :
    statusTokens lines = words ((rawVars lines "ups.status").getD "") := by
  rw [statusTokens, statusValue, rawVars_apply]

/-! ### What the alerts say of the first flag -/

section Titles

variable {py} {overrides : String → Option F} {lines : List String} {data : NutData F}

/-- The alerts about flags are those that the stored status spells. -/
theorem title_mem_iff : ∀ flag ∈ flagTitles,
    (flag.2 ∈ (parseAlerts py overrides data).map Alert.title ↔ Spells py flag.1 data.status) := by
  have hmem (c : Prop) [Decidable c] (alert : Alert) (title : String) :
      title ∈ (if c then [alert] else []).map Alert.title ↔ c ∧ title = alert.title := by
    split_ifs with hc <;> simp [hc]
  intro flag hflag
  simp only [flagTitles, List.mem_cons, List.not_mem_nil, or_false] at hflag
  unfold parseAlerts
  simp only [List.map_append, List.mem_append, hmem]
  rcases hflag with rfl | rfl | rfl
  · have hlower : Text.asciiLower "OB" = "ob" := by decide
    simp [Spells, saysOnBattery, hlower, or_comm]
  · have hlower : Text.asciiLower "LB" = "lb" := by decide
    simp [Spells, hlower]
  · have hlower : Text.asciiLower "RB" = "rb" := by decide
    simp [Spells, hlower]

theorem status_of_parseNutVars (h : parseNutVars py lines = some data) :
    data.status = (statusTokens lines).headD "" := by
  obtain ⟨runtime, -, rfl⟩ := Option.map_eq_some_iff.mp h
  rw [statusTokens_eq]

theorem exists_parseNutVars_iff : (∃ data, parseNutVars py lines = some data) ↔
    ∀ f, safeFloat py (rawVars lines "battery.runtime") = some f → (py.int f).isSome := by
  rw [← Option.isSome_iff_exists, parseNutVars, Option.isSome_map, safeInt]
  cases safeFloat py (rawVars lines "battery.runtime") with
  | none => simp
  | some f => simp

/-- A first flag is taken for itself. -/
theorem spells_of_head {flag : String × String} (hflag : flag ∈ flagTitles) :
    Spells py flag.1 flag.1 := by
  have hascii : ∀ c ∈ flag.1.toList, c.toNat < 128 := by
    simp only [flagTitles, List.mem_cons, List.not_mem_nil, or_false] at hflag
    rcases hflag with rfl | rfl | rfl <;> exact Text.forall_mem_of_all rfl
  have hword : ∀ flag ∈ flagTitles,
      Text.asciiLower flag.1 ∈ words (Text.asciiLower flag.1) := by decide
  refine .inl ?_
  rw [py.lower_ascii flag.1 hascii]
  exact hword flag hflag

theorem firstTells_of_alertsTell (h : AlertsTell py overrides lines) : FirstTells py lines := by
  obtain ⟨data, hdata, htell⟩ := h
  have hspells : ∀ flag ∈ flagTitles,
      (Spells py flag.1 ((statusTokens lines).headD "") ↔ flag.1 ∈ statusTokens lines) := by
    intro flag hflag
    rw [← status_of_parseNutVars hdata, ← title_mem_iff flag hflag]
    exact htell flag hflag
  exact ⟨fun flag hflag hmem => (hspells flag hflag).mpr (List.mem_of_mem_tail hmem),
    fun flag hflag => (hspells flag hflag).mp, exists_parseNutVars_iff.mp ⟨data, hdata⟩⟩

theorem FirstTells.alertsTell (h : FirstTells py lines) : AlertsTell py overrides lines := by
  obtain ⟨data, hdata⟩ := exists_parseNutVars_iff.mpr h.runtime
  refine ⟨data, hdata, fun flag hflag => ?_⟩
  rw [title_mem_iff flag hflag, status_of_parseNutVars hdata]
  refine ⟨h.spelled flag hflag, fun hmem => ?_⟩
  cases htokens : statusTokens lines with
  | nil =>
    rw [htokens] at hmem
    cases hmem
  | cons first rest =>
    have hbehind := h.behind flag hflag
    rw [htokens] at hmem hbehind
    rcases List.mem_cons.mp hmem with heq | hrest
    · rw [List.headD_cons, ← heq]
      exact spells_of_head hflag
    · exact hbehind hrest

end Titles

/-- **When the alerts tell the flags**: exactly when the first flag tells them. -/
theorem alertsTell_iff (overrides : String → Option F) (lines : List String) :
    AlertsTell py overrides lines ↔ FirstTells py lines :=
  ⟨firstTells_of_alertsTell, FirstTells.alertsTell⟩

/-! ### A battery that runs low -/

/-- Python without numbers. -/
def Python.sample : Python Unit where
  toLower := Text.Lower.asciiOnly
  float _ := none
  int _ := none
  ofNat _ := ()
  ge _ _ := false
  str _ := "0.0"

/-- **A low battery raises no alert**: the flag stands behind the one for running on battery. -/
theorem not_alertsTell :
    ¬AlertsTell Python.sample (fun _ => none) [varLine "ups" "ups.status" "OB DISCHRG LB"] := by
  intro h
  have hspells := (firstTells_of_alertsTell h).behind ("LB", "UPS low battery") (by decide) (by decide)
  revert hspells
  simp only [Spells]
  decide

end Nodeglow.Integrations.Nut
