import Mathlib.Tactic.Linarith
import Nodeglow.Backend.Notifications.Channels
import Nodeglow.Foundation.Cooldown

/-!
# The cooldown of notifications

A notification with the title of one that the same tenant had less than five minutes ago is dropped.
The cooldown starts when the dispatcher is called, and not when something is sent: before it is
known whether notifications are enabled, which channels the severity reaches, which ones the caller
wants, and whether the dispatcher raises. So a warning that no channel takes makes the critical
alert of the same title disappear (`not_onlyDelivered`).

The calls come one after the other, each some time after the one before.

## Main results

* `dropped_iff` — a call is dropped exactly while a cooldown for its title is running.
* `onlyDelivered_iff` — exactly when the cooldown suppresses only what was delivered.

Source: `backend/notifications.py`, lines 56–77 and 256–350.
-/

namespace Nodeglow.Notifications

/-! ### Calls -/

/-- A call of `notify`: the time since the call before, the arguments, the settings of the tenant
then, and the channels whose sending fails. -/
structure Call where
  elapsed : ℚ≥0
  tenantId : ℤ
  title : String
  severity : String
  channels : List String
  config : Config
  sendFails : Channel → Option String

/-- What becomes of a call. -/
inductive Outcome
  | dropped
  | raised
  /-- The channels that it was handed to, with the errors. -/
  | sent (results : List (Channel × Option String))
deriving DecidableEq

structure Entry where
  call : Call
  time : ℚ
  outcome : Outcome

variable (py : Python)

/-- The tenant and the title by which the cooldown goes. -/
def cooldownKey (call : Call) : ℤ × String := (call.tenantId, py.lower (Text.strip call.title))

def Entry.key (e : Entry) : ℤ × String := cooldownKey py e.call

/-- The channels that the dispatcher hands the call to if it is not dropped. -/
def Call.recipients (call : Call) : List Channel :=
  (sends call.config call.severity py call.channels).getD []

/-- The channels that a call was handed to. -/
def Outcome.handed : Outcome → List Channel
  | sent results => results.map Prod.fst
  | _ => []

/-! ### The dispatcher -/

abbrev Recent := ℤ × String → Option ℚ

/-- `_COOLDOWN_SECONDS`. -/
def cooldownSeconds : ℚ := 300

/-- `_is_rate_limited`. -/
def isRateLimited (recent : Recent) (now : ℚ) (key : ℤ × String) : Bool × Recent :=
  let recent : Recent := fun k => (recent k).filter fun t => now - t ≤ cooldownSeconds * 2
  if (recent key).any fun t => now - t < cooldownSeconds then (true, recent)
  else (false, Function.update recent key (some now))

/-- The time, `_recent`, and the calls, the last one first. -/
structure World where
  clock : ℚ
  recent : Recent
  log : List Entry

def init : World := ⟨0, fun _ => none, []⟩

/-- `_notify_tenant_channels` after the rate limit. -/
def dispatch (call : Call) : Outcome :=
  match sends call.config call.severity py call.channels with
  | none => .raised
  | some channels => .sent (channels.map fun c => (c, call.sendFails c))

/-- `_notify_tenant_channels`. -/
def notify (w : World) (call : Call) : World :=
  let now := w.clock + call.elapsed
  let limited := isRateLimited w.recent now (cooldownKey py call)
  { clock := now
    recent := limited.2
    log := ⟨call, now, if limited.1 then .dropped else dispatch py call⟩ :: w.log }

/-- The calls one after the other. -/
def run (calls : List Call) : World := calls.foldl (notify py) init

/-! ### The cooldown -/

/-- A cooldown for the title of a call is running. -/
abbrev OnCooldown (earlier : List Entry) (e : Entry) : Prop :=
  Cooldown.Suppressed (Entry.key py) Entry.time cooldownSeconds earlier e

/-- The calls that have started a cooldown. -/
abbrev starters (log : List Entry) : List Entry :=
  Cooldown.starts (Entry.key py) Entry.time cooldownSeconds log

/-- Every call is dropped or dispatched as the cooldown says. -/
def Faithful : List Entry → Prop
  | [] => True
  | e :: earlier =>
    e.outcome = (if OnCooldown py earlier e then .dropped else dispatch py e.call) ∧
      (∀ p ∈ earlier, p.time ≤ e.time) ∧ Faithful earlier

variable {py} {w : World} {log earlier : List Entry} {e p : Entry}

theorem dispatch_ne_dropped (call : Call) : dispatch py call ≠ .dropped := by
  unfold dispatch
  split <;> exact Outcome.noConfusion

theorem handed_dispatch (call : Call) : (dispatch py call).handed = call.recipients py := by
  unfold dispatch Call.recipients
  cases sends call.config call.severity py call.channels with
  | none => rfl
  | some channels => simp [Outcome.handed, Function.comp_def]

/-- **When a call is dropped.** -/
theorem dropped_iff (h : Faithful py (e :: earlier)) :
    e.outcome = .dropped ↔ OnCooldown py earlier e := by
  rw [h.1]
  split
  · rename_i hrunning
    exact iff_of_true rfl hrunning
  · rename_i hrunning
    exact iff_of_false (dispatch_ne_dropped e.call) hrunning

/-- The calls that start a cooldown are those that are not dropped. -/
theorem mem_starters_iff (h : Faithful py log) (hp : p ∈ log) :
    p.outcome ≠ .dropped → p ∈ starters py log := by
  induction log with
  | nil => cases hp
  | cons e earlier ih =>
    intro hne
    by_cases hrunning : OnCooldown py earlier e
    · rw [starters, Cooldown.starts_cons_of_suppressed hrunning]
      rcases List.mem_cons.mp hp with rfl | hp
      · exact absurd ((dropped_iff h).mpr hrunning) hne
      · exact ih h.2.2 hp hne
    · rw [starters, Cooldown.starts_cons_of_not_suppressed hrunning]
      rcases List.mem_cons.mp hp with rfl | hp
      · exact List.mem_cons_self
      · exact List.mem_cons_of_mem e (ih h.2.2 hp hne)

/-- A call that starts a cooldown is handed to all its channels. -/
theorem handed_of_mem_starters (h : Faithful py log) (hp : p ∈ starters py log) :
    p.outcome.handed = p.call.recipients py := by
  induction log with
  | nil => cases hp
  | cons e earlier ih =>
    by_cases hrunning : OnCooldown py earlier e
    · rw [starters, Cooldown.starts_cons_of_suppressed hrunning] at hp
      exact ih h.2.2 hp
    · rw [starters, Cooldown.starts_cons_of_not_suppressed hrunning] at hp
      rcases List.mem_cons.mp hp with rfl | hp
      · rw [h.1, if_neg hrunning, handed_dispatch]
      · exact ih h.2.2 hp

/-! ### Runs -/

/-- What `_recent` has to say at a time. -/
abbrev Recorded (py : Python) (log : List Entry) (now : ℚ) (recent : Recent) : Prop :=
  Cooldown.Recorded (Entry.key py) Entry.time cooldownSeconds log now recent

/-- **The rate limit decides what the cooldown says**, and records the starts. -/
theorem isRateLimited_spec {now : ℚ} {recent : Recent} (h : Recorded py earlier now recent)
    (htime : e.time = now) :
    ((isRateLimited recent now (e.key py)).1 = true ↔ OnCooldown py earlier e) ∧
      Recorded py (e :: earlier) now (isRateLimited recent now (e.key py)).2 := by
  have hforgotten := h.forget (cooldownSeconds * 2) (by norm_num [cooldownSeconds])
  have hdecides := hforgotten.suppressed_iff htime
  unfold isRateLimited
  dsimp only
  split
  · rename_i hany
    have hrunning : OnCooldown py earlier e :=
      hdecides.mp (by simpa [Option.any_eq_true, and_assoc] using hany)
    exact ⟨iff_of_true rfl hrunning, hforgotten.skip htime hrunning⟩
  · rename_i hany
    have hfree : ¬OnCooldown py earlier e := fun hrunning =>
      hany (by simpa [Option.any_eq_true, and_assoc] using hdecides.mpr hrunning)
    exact ⟨iff_of_false Bool.false_ne_true hfree, hforgotten.start htime hfree⟩

/-- What holds after every call: the log is as the cooldown says, and `_recent` knows it. -/
structure Inv (py : Python) (w : World) : Prop where
  faithful : Faithful py w.log
  recorded : Recorded py w.log w.clock w.recent

theorem Inv.init : Inv py init where
  faithful := trivial
  recorded := ⟨fun _ h => absurd h List.not_mem_nil, fun _ h => absurd h List.not_mem_nil,
    fun _ _ h => by cases h⟩

/-- A call preserves the invariant. -/
theorem Inv.notify (h : Inv py w) (call : Call) : Inv py (notify py w call) := by
  have hle : w.clock ≤ w.clock + call.elapsed := le_add_of_nonneg_right call.elapsed.coe_nonneg
  have hnow := h.recorded.advance hle
  let limited := (isRateLimited w.recent (w.clock + call.elapsed) (cooldownKey py call)).1
  let e : Entry := ⟨call, w.clock + call.elapsed, if limited then .dropped else dispatch py call⟩
  obtain ⟨hlimited, hrecorded⟩ := isRateLimited_spec (e := e) hnow rfl
  refine ⟨⟨?_, hnow.past, h.faithful⟩, hrecorded⟩
  by_cases hrunning : OnCooldown py w.log e
  · rw [if_pos hrunning]
    exact if_pos (hlimited.mpr hrunning)
  · rw [if_neg hrunning]
    exact if_neg fun hl => hrunning (hlimited.mp hl)

/-- The invariant holds in every run. -/
theorem Inv.run (calls : List Call) : Inv py (run py calls) :=
  List.foldlRecOn calls (Notifications.notify py) Inv.init fun _ h call _ => h.notify call

/-! ### What the cooldown suppresses -/

/-- A dropped call had one of the same tenant and title before it, within the cooldown, that was
handed to every channel that it would have gone to. -/
def Delivered (py : Python) (earlier : List Entry) (e : Entry) : Prop :=
  e.outcome = .dropped → ∃ p ∈ earlier, p.key py = e.key py ∧ p.time ≤ e.time ∧
    e.time - p.time < cooldownSeconds ∧ e.call.recipients py ⊆ p.outcome.handed

/-- **The cooldown suppresses only what was delivered.** -/
def OnlyDelivered (py : Python) : List Entry → Prop
  | [] => True
  | e :: earlier => Delivered py earlier e ∧ OnlyDelivered py earlier

/-- The call that has started the cooldown had, by its own settings, severity and channels, all the
channels that this one has. -/
def Covered (py : Python) (earlier : List Entry) (e : Entry) : Prop :=
  ∀ p ∈ starters py earlier, p.key py = e.key py → e.time - p.time < cooldownSeconds →
    e.call.recipients py ⊆ p.call.recipients py

def AllCovered (py : Python) : List Entry → Prop
  | [] => True
  | e :: earlier => Covered py earlier e ∧ AllCovered py earlier

/-- One call. -/
theorem delivered_iff (h : Faithful py (e :: earlier)) :
    Delivered py earlier e ↔ Covered py earlier e := by
  constructor
  · intro hdelivered p hp hkey hrecent
    have hdropped : e.outcome = .dropped := (dropped_iff h).mpr ⟨p, hp, hkey, hrecent⟩
    obtain ⟨p', hp', hkey', hpast', hrecent', hhanded⟩ := hdelivered hdropped
    intro c hc
    have hne : p'.outcome ≠ .dropped := by
      intro heq
      rw [heq] at hhanded
      exact absurd (hhanded hc) List.not_mem_nil
    have hstart := mem_starters_iff h.2.2 hp' hne
    have hpast := h.2.1 p (Cooldown.starts_subset hp)
    have hsame : p' = p := Cooldown.eq_of_recent hstart hp (hkey'.trans hkey.symm) hpast' hpast
      hrecent' hrecent
    rw [← handed_of_mem_starters h.2.2 hp, ← hsame]
    exact hhanded hc
  · intro hcovered hdropped
    obtain ⟨p, hp, hkey, hrecent⟩ := (dropped_iff h).mp hdropped
    have hmem := Cooldown.starts_subset hp
    refine ⟨p, hmem, hkey, h.2.1 p hmem, hrecent, ?_⟩
    rw [handed_of_mem_starters h.2.2 hp]
    exact hcovered p hp hkey hrecent

/-- **When the cooldown suppresses only what was delivered.** -/
theorem onlyDelivered_iff (calls : List Call) :
    OnlyDelivered py (run py calls).log ↔ AllCovered py (run py calls).log := by
  have hlog (log : List Entry) (h : Faithful py log) :
      OnlyDelivered py log ↔ AllCovered py log := by
    induction log with
    | nil => exact Iff.rfl
    | cons e earlier ih => exact and_congr (delivered_iff h) (ih h.2.2)
  exact hlog _ (Inv.run calls).faithful

/-! ### A warning before an alert -/

def Python.sample : Python where
  toLower := .asciiOnly
  int _ := some 587

/-- A tenant whose only channel takes critical alerts. -/
def sampleConfig : Config where
  stored
    | "notify_enabled" => some (some "1")
    | "telegram_bot_token" => some (some "token")
    | "telegram_chat_id" => some (some "chat")
    | "notify_telegram_min_severity" => some (some "critical")
    | _ => none
  decrypt _ := none
  legacyDecrypt _ := none

def sampleCall (elapsed : ℚ≥0) (severity : String) : Call :=
  ⟨elapsed, 2, "Disk full", severity, [], sampleConfig, fun _ => none⟩

/-- A warning, and a minute later a critical alert. -/
def sampleCalls : List Call := [sampleCall 0 "warning", sampleCall 60 "critical"]

/-- **No channel gets the alert.** -/
theorem not_onlyDelivered : ¬OnlyDelivered .sample (run .sample sampleCalls).log := by
  intro h
  obtain ⟨e, p, hlog, hcall⟩ : ∃ e p, (run .sample sampleCalls).log = [e, p] ∧
      e.call = sampleCall 60 "critical" := ⟨_, _, rfl, rfl⟩
  have houtcomes : (run .sample sampleCalls).log.map Entry.outcome = [.dropped, .sent []] := by
    decide +kernel
  have hrecipients : Call.recipients .sample (sampleCall 60 "critical") = [.telegram] := by
    decide +kernel
  rw [hlog] at h houtcomes
  obtain ⟨hdropped, hsent⟩ := List.cons.inj houtcomes
  obtain ⟨p', hp', -, -, -, hhanded⟩ := h.1 hdropped
  rw [List.mem_singleton.mp hp', (List.cons.inj hsent).1, hcall, hrecipients] at hhanded
  exact absurd (hhanded List.mem_cons_self) List.not_mem_nil

end Nodeglow.Notifications
