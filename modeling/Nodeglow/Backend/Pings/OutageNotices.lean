import Mathlib.Data.Int.Notation
import Mathlib.Data.List.Basic

/-!
# Offline and online notifications of a host

Each ping cycle checks the hosts. A host that does not answer is noted, and after a grace period
an offline notification is sent, once. When the host answers again, the notes on it are dropped, and
a notification that it is back online is sent; but only if the newest result of the host in the
result store is a failure. The store is read at the start of the cycle, and may be unavailable; the
results of a cycle are inserted after the checks, which may fail. Other code stores results of the
host as well, such as a check on demand.

So the two notifications pair up as long as no cycle in which a host with an offline notification
answers again finds the store unavailable, or another result than a failure in it.

The notes on different hosts are kept apart, and one turn of each loop is about one host; this file
is about one host that is checked in every cycle.

## Main results

* `outstanding_iff` — an offline notification is outstanding as long as it is noted.
* `paired_iff` — exactly when the notifications pair up.
* `not_paired_lookupFails` — a failing lookup loses a notification.

Source: `backend/scheduler.py`, lines 365–366, 493–502 and 586–643.
-/

namespace Nodeglow.Pings

/-! ### The ping cycle -/

/-- The notes on a host, and its newest result in the result store, if there is one. -/
structure Watch where
  offlineSince : Option ℤ
  graceNotified : Bool
  latest : Option Bool

/-- A cycle: the time in microseconds, the result of the check, whether the result store fails, and
`notify_grace_minutes`. -/
structure Cycle where
  now : ℤ
  online : Bool
  lookupFails : Bool
  insertFails : Bool
  graceMinutes : ℕ

/-- What a cycle found and sent. -/
structure Notice where
  online : Bool
  wentOffline : Bool
  cameOnline : Bool
  deriving DecidableEq, Repr

/-- One minute, in microseconds. -/
def oneMinute : ℤ := 60 * 1000000

/-- The first loop over the results: the notes, and whether the host came online. -/
def trackChange (w : Watch) (c : Cycle) : Watch × Bool :=
  let prev := if c.lookupFails then none else w.latest
  if c.online then
    ({ w with offlineSince := none, graceNotified := false },
      prev = some false && w.graceNotified)
  else ({ w with offlineSince := w.offlineSince.or (some c.now) }, false)

/-- The second loop: whether the host has been offline for the grace period. -/
def notifyGrace (w : Watch) (c : Cycle) : Watch × Bool :=
  match w.offlineSince with
  | some since =>
    if !c.online ∧ !w.graceNotified ∧ c.graceMinutes * oneMinute ≤ c.now - since then
      ({ w with graceNotified := true }, true)
    else (w, false)
  | none => (w, false)

/-- `run_ping_checks`. -/
def runPingChecks (w : Watch) (c : Cycle) : Watch × Notice :=
  let tracked := trackChange w c
  let stored := if c.insertFails then tracked.1 else { tracked.1 with latest := some c.online }
  let notified := notifyGrace stored c
  (notified.1, ⟨c.online, notified.2, tracked.2⟩)

/-- What happens to a host: a cycle, or another result is stored. -/
inductive Event
  | cycle (c : Cycle)
  | stored (success : Bool)

/-- The notes after an event, and what a cycle sent. -/
def Event.step (w : Watch) : Event → Watch × List Notice
  | cycle c => ((runPingChecks w c).1, [(runPingChecks w c).2])
  | stored success => ({ w with latest := some success }, [])

/-- What is sent along a list of events. -/
def notices (w : Watch) : List Event → List Notice
  | [] => []
  | e :: es => (e.step w).2 ++ notices (e.step w).1 es

/-- Nothing is known of a host at first. -/
def Watch.init : Watch := ⟨none, false, none⟩

/-! ### Pairing -/

/-- An offline notification was sent, and the host was not online since. -/
def Outstanding (front : List Notice) : Prop :=
  ∃ before notice since, front = before ++ notice :: since ∧ notice.wentOffline = true ∧
    ∀ n ∈ since, n.online = false

/-- The host is said to be back online exactly in the cycles in which it is online and an offline
notification is outstanding, and no second offline notification is sent before. -/
def PairedAt (front : List Notice) (n : Notice) : Prop :=
  (n.cameOnline = true ↔ n.online = true ∧ Outstanding front) ∧
    (n.wentOffline = true → n.online = false ∧ ¬Outstanding front)

/-- The notifications pair up after those in `front`. -/
def PairedAfter (front ns : List Notice) : Prop :=
  ∀ between n back, ns = between ++ n :: back → PairedAt (front ++ between) n

/-- Offline and online notifications pair up. -/
def Paired (ns : List Notice) : Prop := PairedAfter [] ns

/-- Where a host with an offline notification is online, the store answers with a failure. -/
def Event.Recoverable (w : Watch) : Event → Prop
  | cycle c => w.graceNotified = true → c.online = true →
      c.lookupFails = false ∧ w.latest = some false
  | stored _ => True

/-- All events of a list are recoverable. -/
def Recoverable (w : Watch) : List Event → Prop
  | [] => True
  | e :: es => e.Recoverable w ∧ Recoverable (e.step w).1 es

variable {w : Watch} {c : Cycle} {front ns : List Notice} {n : Notice}

/-! ### One cycle -/

theorem online_runPingChecks : (runPingChecks w c).2.online = c.online := rfl

theorem cameOnline_runPingChecks : (runPingChecks w c).2.cameOnline = true ↔
    c.online = true ∧ w.graceNotified = true ∧ c.lookupFails = false ∧ w.latest = some false := by
  simp only [runPingChecks, trackChange]
  split_ifs <;> simp_all [and_comm]

theorem graceNotified_trackChange :
    (trackChange w c).1.graceNotified = (!c.online && w.graceNotified) := by
  simp only [trackChange]
  split_ifs with honline <;> simp [honline]

theorem notifyGrace_of_sent (h : (notifyGrace w c).2 = true) :
    c.online = false ∧ w.graceNotified = false := by
  unfold notifyGrace at h
  split at h
  · split_ifs at h with hsent
    exact ⟨by simpa using hsent.1, by simpa using hsent.2.1⟩
  · cases h

theorem graceNotified_notifyGrace :
    (notifyGrace w c).1.graceNotified = (w.graceNotified || (notifyGrace w c).2) := by
  unfold notifyGrace
  split
  · split_ifs <;> simp
  · simp

/-- The notes after the checks of a cycle. -/
theorem exists_runPingChecks : ∃ stored : Watch,
    stored.graceNotified = (!c.online && w.graceNotified) ∧
    (runPingChecks w c).1 = (notifyGrace stored c).1 ∧
    (runPingChecks w c).2.wentOffline = (notifyGrace stored c).2 := by
  refine ⟨_, ?_, rfl, rfl⟩
  rw [← graceNotified_trackChange]
  split_ifs <;> rfl

theorem wentOffline_runPingChecks (h : (runPingChecks w c).2.wentOffline = true) :
    c.online = false ∧ w.graceNotified = false := by
  obtain ⟨stored, hstored, -, hoffline⟩ := exists_runPingChecks (w := w) (c := c)
  obtain ⟨honline, hnotified⟩ := notifyGrace_of_sent (hoffline ▸ h)
  rw [hstored, honline] at hnotified
  exact ⟨honline, by simpa using hnotified⟩

/-- An offline notification is noted. -/
theorem graceNotified_runPingChecks : (runPingChecks w c).1.graceNotified = true ↔
    c.online = false ∧ (w.graceNotified = true ∨ (runPingChecks w c).2.wentOffline = true) := by
  obtain ⟨stored, hstored, hnotes, hoffline⟩ := exists_runPingChecks (w := w) (c := c)
  rw [hnotes, hoffline, graceNotified_notifyGrace, hstored]
  constructor
  · intro h
    rcases Bool.or_eq_true_iff.mp h with hnotified | hsent
    · exact (by simpa using hnotified : c.online = false ∧ w.graceNotified = true).imp_right .inl
    · exact ⟨(notifyGrace_of_sent hsent).1, .inr hsent⟩
  · rintro ⟨honline, hnotified | hsent⟩
    · simp [honline, hnotified]
    · simp [hsent]

/-! ### Outstanding notifications -/

theorem not_outstanding_nil : ¬Outstanding [] := by
  rintro ⟨before, notice, since, h, -⟩
  simp at h

theorem outstanding_concat : Outstanding (front ++ [n]) ↔
    n.wentOffline = true ∨ n.online = false ∧ Outstanding front := by
  constructor
  · rintro ⟨before, notice, since, h, hoffline, hsince⟩
    rcases List.eq_nil_or_concat' since with rfl | ⟨since, last, rfl⟩
    · obtain ⟨-, rfl⟩ := List.append_inj' h rfl |>.imp_right List.singleton_inj.mp
      exact .inl hoffline
    · rw [← List.cons_append, ← List.append_assoc] at h
      obtain ⟨rfl, hlast⟩ := List.append_inj' h rfl
      obtain rfl := List.singleton_inj.mp hlast
      exact .inr ⟨hsince n (by simp), before, notice, since, rfl, hoffline,
        fun m hm => hsince m (List.mem_append_left _ hm)⟩
  · rintro (hoffline | ⟨honline, before, notice, since, rfl, hoffline, hsince⟩)
    · exact ⟨front, n, [], rfl, hoffline, by simp⟩
    · refine ⟨before, notice, since ++ [n], by simp, hoffline, fun m hm => ?_⟩
      rcases List.mem_append.mp hm with hm | hm
      · exact hsince m hm
      · rw [List.mem_singleton.mp hm]
        exact honline

/-- **An offline notification is outstanding** as long as it is noted. -/
theorem outstanding_iff (h : Outstanding front ↔ w.graceNotified = true) :
    Outstanding (front ++ [(runPingChecks w c).2]) ↔
      (runPingChecks w c).1.graceNotified = true := by
  rw [outstanding_concat, h, graceNotified_runPingChecks, online_runPingChecks]
  constructor
  · rintro (hoffline | ⟨honline, hnotified⟩)
    · exact ⟨(wentOffline_runPingChecks hoffline).1, .inr hoffline⟩
    · exact ⟨honline, .inl hnotified⟩
  · rintro ⟨honline, hnotified | hoffline⟩
    · exact .inr ⟨honline, hnotified⟩
    · exact .inl hoffline

/-! ### Pairing -/

theorem pairedAfter_nil : PairedAfter front [] := by
  intro between n back h
  simp at h

theorem pairedAfter_cons :
    PairedAfter front (n :: ns) ↔ PairedAt front n ∧ PairedAfter (front ++ [n]) ns := by
  constructor
  · intro h
    refine ⟨by simpa using h [] n ns rfl, fun between m back hns => ?_⟩
    have hm := h (n :: between) m back (by rw [hns, List.cons_append])
    rwa [List.append_assoc]
  · rintro ⟨hn, hns⟩ between m back h
    cases between with
    | nil =>
      obtain ⟨rfl, -⟩ := List.cons.inj h
      simpa using hn
    | cons first between =>
      obtain ⟨rfl, hback⟩ := List.cons.inj h
      have hm := hns between m back hback
      rwa [List.append_assoc] at hm

/-- One cycle pairs exactly if it is recoverable. -/
theorem pairedAt_iff (h : Outstanding front ↔ w.graceNotified = true) :
    PairedAt front (runPingChecks w c).2 ↔ (Event.cycle c).Recoverable w := by
  unfold PairedAt Event.Recoverable
  rw [cameOnline_runPingChecks, online_runPingChecks, h]
  constructor
  · rintro ⟨hback, -⟩ hnotified honline
    exact (hback.mpr ⟨honline, hnotified⟩).2.2
  · intro hrecoverable
    refine ⟨⟨fun hback => ⟨hback.1, hback.2.1⟩, fun hback => ?_⟩, fun hoffline => ?_⟩
    · exact ⟨hback.1, hback.2, hrecoverable hback.2 hback.1⟩
    · obtain ⟨honline, hnotified⟩ := wentOffline_runPingChecks hoffline
      exact ⟨honline, by simp [hnotified]⟩

theorem pairedAfter_iff (h : Outstanding front ↔ w.graceNotified = true) (es : List Event) :
    PairedAfter front (notices w es) ↔ Recoverable w es := by
  induction es generalizing w front with
  | nil => exact ⟨fun _ => trivial, fun _ => pairedAfter_nil⟩
  | cons e es ih =>
    cases e with
    | cycle c =>
      simp only [notices, Event.step, List.singleton_append]
      rw [pairedAfter_cons, pairedAt_iff h, ih (outstanding_iff h)]
      rfl
    | stored success =>
      simp only [notices, Event.step, List.nil_append]
      rw [ih (w := { w with latest := some success }) h]
      exact ⟨fun hes => ⟨trivial, hes⟩, And.right⟩

/-- **Exactly when the notifications pair up**, over every run of ping cycles. -/
theorem paired_iff (es : List Event) : Paired (notices .init es) ↔ Recoverable .init es :=
  pairedAfter_iff ⟨fun h => absurd h not_outstanding_nil, fun h => absurd h (by decide)⟩ es

/-- A host that is offline for one cycle, where the store fails in the next one. -/
def lookupFails : List Event :=
  [.cycle ⟨0, true, false, false, 0⟩, .cycle ⟨oneMinute, false, false, false, 0⟩,
    .cycle ⟨2 * oneMinute, true, true, false, 0⟩]

/-- **A failing lookup** loses the notification that the host is back online. -/
theorem not_paired_lookupFails : ¬∀ es, Paired (notices .init es) := by
  intro h
  have hlist : notices .init lookupFails =
      [⟨true, false, false⟩, ⟨false, true, false⟩] ++ ⟨true, false, false⟩ :: [] := by
    decide
  obtain ⟨hback, -⟩ := h lookupFails _ _ _ hlist
  have honline :=
    hback.mpr ⟨rfl, [⟨true, false, false⟩], ⟨false, true, false⟩, [], rfl, rfl, by simp⟩
  cases honline

end Nodeglow.Pings
