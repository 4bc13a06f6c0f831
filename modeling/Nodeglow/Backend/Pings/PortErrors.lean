import Nodeglow.Foundation.Latch
import Nodeglow.Probes.CheckTypes

/-!
# The port error of a host

A host that answers a ping while one of its service checks fails has a port error. The result of one
cycle flaps, so the flag of the host is a latch: it is set after three failures in a row and cleared
after two passes in a row. Only cycles in which the host is online and a service check ran are
counted. A cycle without a service check clears the flag and forgets what was counted.

Between the cycles the check types of the host are edited: by the form of the host, which only
stores them; by the API, for one host or several, which clears the flag and forgets what was
counted; by monitoring a port or a certificate, which forgets what was counted; and by no longer
monitoring it, which clears the flag as well. What was counted is kept in memory and lost when the
process restarts.

The rows and counters of different hosts are kept apart; this file is about one host.

## Main results

* `tracks_after` — the counters are the streaks of what was counted.
* `lawfulEdits_after` — every run.
* `not_lawful_sample` — an edit clears the flag of a host that still has a service check.

Source: `backend/scheduler.py`, lines 368–389 and 548–584; `backend/routers/api_v1.py`, lines
965–996 and 1004–1060; `backend/routers/ping.py`, lines 329–330 and 496–569.
-/

namespace Nodeglow.PortErrors

open Probes (Outcome entries)

/-- `PORT_ERROR_SET_THRESHOLD`. -/
def portErrorSetThreshold : ℕ := 3

/-- `PORT_ERROR_CLEAR_THRESHOLD`. -/
def portErrorClearThreshold : ℕ := 2

/-- The row of a host. -/
structure HostRow where
  checkType : Option String
  port : Option ℕ
  portError : Bool
  deriving DecidableEq, Repr

/-- The row, and the entries of `_port_fail_streak` and `_port_pass_streak`, zero without one. -/
structure HostState where
  row : HostRow
  failStreak : ℕ
  passStreak : ℕ
  deriving DecidableEq, Repr

/-- The types of `check_host`. -/
def HostRow.checkTypes (r : HostRow) : List String :=
  Probes.Server.checkTypes (r.checkType.getD "")

/-- What `check_host` returns when no check raises. -/
def HostRow.checkHost (r : HostRow) (py : Text.Lower) (outcome : String → Outcome) :
    Probes.Server.HostCheck :=
  Probes.Server.hostCheck r.port (Probes.Server.results py (r.checkType.getD "") outcome)

/-- `has_service_check`: one of the labels is not that of a ping. -/
def HostRow.hasServiceCheck (r : HostRow) : Bool :=
  r.checkTypes.any fun ct => Probes.Server.label ct r.port ≠ "icmp"

namespace HostState

/-- `reset_port_error_state`. -/
def resetPortErrorState (s : HostState) : HostState := { s with failStreak := 0, passStreak := 0 }

/-- The host in one cycle of `run_ping_checks`. -/
def pingCycle (py : Text.Lower) (s : HostState) (outcome : String → Outcome) : HostState :=
  let res := s.row.checkHost py outcome
  if !s.row.hasServiceCheck then
    { row := { s.row with portError := false }, failStreak := 0, passStreak := 0 }
  else
    let failStreak :=
      if res.online then (if res.portError then s.failStreak + 1 else 0) else s.failStreak
    let passStreak :=
      if res.online then (if res.portError then 0 else s.passStreak + 1) else s.passStreak
    let latched :=
      if !s.row.portError && portErrorSetThreshold ≤ failStreak then true
      else if s.row.portError && portErrorClearThreshold ≤ passStreak then false
      else s.row.portError
    { row := { s.row with portError := latched }, failStreak, passStreak }

end HostState

/-! ### Edits -/

/-- `existing_types`. -/
def existingTypes (checkType : Option String) : List String :=
  (((entries (checkType.getD "")).map Text.strip).filter (· ≠ "")).dedup

/-- `",".join(sorted(types))`. -/
def joinTypes (types : List String) : String :=
  ",".intercalate (types.mergeSort fun a b => decide (a ≤ b))

/-- The check types with another one. -/
def addType (ct : String) (r : HostRow) : HostRow :=
  { r with checkType := some (joinTypes ((existingTypes r.checkType).insert ct)) }

/-- The check types without one. -/
def discardType (ct : String) (r : HostRow) : HostRow :=
  let joined := joinTypes ((existingTypes r.checkType).erase ct)
  { r with checkType := some (if joined = "" then "icmp" else joined) }

/-- What can happen to a host. -/
inductive Event
  /-- A cycle checks the host. -/
  | cycle (outcome : String → Outcome)
  /-- A cycle leaves the host out: it is disabled, in maintenance, or checked by a probe; or
  `check_host` raises. -/
  | skipped
  /-- The form of the host. -/
  | edit (checkType : String) (port : Option ℕ)
  /-- `update_host`, with the check types and the port of the request, if it has them, and whether
  the HTTP options change. -/
  | updateHost (checkType : Option (Option String)) (port : Option (Option ℕ))
      (httpOptionsChange : Bool)
  /-- The update of several hosts. -/
  | bulkUpdate (checkType : String)
  /-- `monitor_port`, with the port that was found. -/
  | monitorPort (port : ℕ)
  | unmonitorPort
  | monitorSsl
  | unmonitorSsl
  /-- The process starts again. -/
  | restart

/-- The values that the update of several hosts accepts. -/
def bulkCheckTypes : List String := ["icmp", "http", "https", "tcp"]

/-- The edit clears the flag. -/
def Event.Clears (r : HostRow) : Event → Prop
  | updateHost checkType _ httpOptionsChange =>
    (∃ ct ∈ checkType, ct ≠ r.checkType) ∨ httpOptionsChange = true
  | bulkUpdate checkType => checkType ∈ bulkCheckTypes
  | unmonitorPort => True
  | unmonitorSsl => True
  | _ => False

instance (r : HostRow) (e : Event) : Decidable (e.Clears r) := by
  cases e <;> unfold Event.Clears <;> infer_instance

namespace HostState

/-- The edit clears the flag, and forgets what was counted. -/
def clearPortError (s : HostState) : HostState :=
  { s.resetPortErrorState with row := { s.row with portError := false } }

/-- The row is edited. -/
def editRow (s : HostState) (f : HostRow → HostRow) : HostState := { s with row := f s.row }

end HostState

/-- The state after an event. -/
def Event.step (py : Text.Lower) (s : HostState) : Event → HostState
  | cycle outcome => s.pingCycle py outcome
  | skipped => s
  | edit checkType port =>
    s.editRow fun r => { r with checkType := some checkType, port := port }
  | updateHost checkType port httpOptionsChange =>
    let updated := s.editRow fun r =>
      { r with checkType := checkType.getD r.checkType, port := port.getD r.port }
    if (∃ ct ∈ checkType, ct ≠ s.row.checkType) ∨ httpOptionsChange = true then
      updated.clearPortError
    else updated
  | bulkUpdate checkType =>
    if checkType ∈ bulkCheckTypes then
      (s.editRow fun r => { r with checkType := some checkType }).clearPortError
    else s
  | monitorPort port =>
    (s.editRow fun r =>
      { addType "tcp" r with port := if r.port.getD 0 = 0 then some port else r.port }
      ).resetPortErrorState
  | unmonitorPort => (s.editRow (discardType "tcp")).clearPortError
  | monitorSsl => (s.editRow (addType "https")).resetPortErrorState
  | unmonitorSsl => (s.editRow (discardType "https")).clearPortError
  | restart => s.resetPortErrorState

/-! ### The latch -/

/-- The flag with its counters. -/
def HostState.latch (s : HostState) : Latch := ⟨s.row.portError, s.failStreak, s.passStreak⟩

/-- A latch with the thresholds. -/
def settled (l : Latch) : Latch := l.settle portErrorSetThreshold portErrorClearThreshold

/-- **A counted outcome**: a cycle in which the host is online and a service check ran. -/
def Event.Counted (py : Text.Lower) (r : HostRow) (failed : Bool) : Event → Prop
  | cycle outcome => r.hasServiceCheck = true ∧ (r.checkHost py outcome).online = true ∧
      (r.checkHost py outcome).portError = failed
  | _ => False

/-- What an event adds to the history. -/
def Event.marks (py : Text.Lower) (r : HostRow) : Event → List Latch.Mark
  | cycle outcome =>
    if !r.hasServiceCheck then [.forgotten]
    else if (r.checkHost py outcome).online then [Latch.mark (r.checkHost py outcome).portError]
    else []
  | skipped => []
  | edit _ _ => []
  | updateHost checkType port httpOptionsChange =>
    if (updateHost checkType port httpOptionsChange).Clears r then [.forgotten] else []
  | bulkUpdate checkType => if (bulkUpdate checkType).Clears r then [.forgotten] else []
  | _ => [.forgotten]

variable {py : Text.Lower} {s : HostState} {e : Event} {past : List Latch.Mark}

/-- The flag of a cycle with a service check. -/
theorem pingCycle_latch (py : Text.Lower) (hcheck : s.row.hasServiceCheck = true)
    (outcome : String → Outcome) :
    (s.pingCycle py outcome).latch =
      settled (if (s.row.checkHost py outcome).online then
        s.latch.count (s.row.checkHost py outcome).portError else s.latch) := by
  simp only [HostState.pingCycle, hcheck, Bool.not_true, Bool.false_eq_true, if_false]
  rcases honline : (s.row.checkHost py outcome).online with _ | _
  · simp only [Bool.false_eq_true, if_false, settled, HostState.latch, Latch.settle]
    split_ifs <;> rfl
  · rcases hfailed : (s.row.checkHost py outcome).portError with _ | _
    · simp only [if_true, Bool.false_eq_true, if_false, settled, HostState.latch, Latch.settle,
        Latch.count]
      split_ifs <;> rfl
    · simp only [if_true, settled, HostState.latch, Latch.settle, Latch.count]
      split_ifs <;> rfl

/-- **What an event does to the latch**: nothing; it settles without another outcome; it counts one
and settles; or what was counted is forgotten, and the flag is kept or cleared. -/
theorem step_cases (py : Text.Lower) (s : HostState) (e : Event) :
    (e.marks py s.row = [] ∧
        ((e.step py s).latch = s.latch ∨ (e.step py s).latch = settled s.latch)) ∨
      (∃ failed, e.Counted py s.row failed ∧ e.marks py s.row = [Latch.mark failed] ∧
        (e.step py s).latch = settled (s.latch.count failed)) ∨
      e.marks py s.row = [.forgotten] ∧ ∃ flag,
        (e.step py s).latch = { s.latch.forget with flag := flag } ∧
          (flag = s.row.portError ∨ flag = false ∧
            ((e.step py s).row.hasServiceCheck = false ∨ e.Clears s.row)) := by
  cases e with
  | cycle outcome =>
    rcases hcheck : s.row.hasServiceCheck with _ | _
    · refine .inr (.inr ⟨by simp [Event.marks, hcheck], false, ?_, .inr ⟨rfl, .inl ?_⟩⟩)
      · simp [Event.step, HostState.pingCycle, hcheck, HostState.latch, Latch.forget]
      · simp only [Event.step, HostState.pingCycle, hcheck, Bool.not_false, if_true]
        exact hcheck
    · have hlatch := pingCycle_latch py hcheck outcome
      rcases honline : (s.row.checkHost py outcome).online with _ | _
      · refine .inl ⟨by simp [Event.marks, hcheck, honline], .inr ?_⟩
        rwa [honline, if_neg Bool.false_ne_true] at hlatch
      · refine .inr (.inl ⟨_, ⟨hcheck, honline, rfl⟩, by simp [Event.marks, hcheck, honline], ?_⟩)
        rwa [honline, if_pos rfl] at hlatch
  | skipped => exact .inl ⟨rfl, .inl rfl⟩
  | edit checkType port => exact .inl ⟨rfl, .inl rfl⟩
  | updateHost checkType port httpOptionsChange =>
    by_cases hclears : (Event.updateHost checkType port httpOptionsChange).Clears s.row
    · refine .inr (.inr ⟨if_pos hclears, false, ?_, .inr ⟨rfl, .inr hclears⟩⟩)
      exact congrArg HostState.latch (if_pos hclears)
    · refine .inl ⟨if_neg hclears, .inl ?_⟩
      exact (congrArg HostState.latch (if_neg hclears)).trans rfl
  | bulkUpdate checkType =>
    by_cases hclears : checkType ∈ bulkCheckTypes
    · refine .inr (.inr ⟨if_pos hclears, false, ?_, .inr ⟨rfl, .inr hclears⟩⟩)
      exact congrArg HostState.latch (if_pos hclears)
    · exact .inl ⟨if_neg hclears, .inl (congrArg HostState.latch (if_neg hclears))⟩
  | monitorPort port => exact .inr (.inr ⟨rfl, s.row.portError, rfl, .inl rfl⟩)
  | unmonitorPort => exact .inr (.inr ⟨rfl, false, rfl, .inr ⟨rfl, .inr trivial⟩⟩)
  | monitorSsl => exact .inr (.inr ⟨rfl, s.row.portError, rfl, .inl rfl⟩)
  | unmonitorSsl => exact .inr (.inr ⟨rfl, false, rfl, .inr ⟨rfl, .inr trivial⟩⟩)
  | restart => exact .inr (.inr ⟨rfl, s.row.portError, rfl, .inl rfl⟩)

/-! ### Runs -/

/-- The state and the history after some events, from the start of a process on. -/
def after (py : Text.Lower) (row : HostRow) (events : List Event) :
    HostState × List Latch.Mark :=
  events.foldl (fun x e => (e.step py x.1, e.marks py x.1.row ++ x.2)) (⟨row, 0, 0⟩, [])

/-- The counters are the streaks of what was counted. -/
def Tracks (s : HostState) (past : List Latch.Mark) : Prop :=
  s.latch.Tracks portErrorSetThreshold portErrorClearThreshold past

theorem Tracks.step (h : Tracks s past) (py : Text.Lower) (e : Event) :
    Tracks (e.step py s) (e.marks py s.row ++ past) := by
  have hset : 0 < portErrorSetThreshold := by decide
  have hclear : 0 < portErrorClearThreshold := by decide
  unfold Tracks at h ⊢
  rcases step_cases py s e with ⟨hmarks, hsame | hsettled⟩ | ⟨failed, -, hmarks, hcount⟩ |
    ⟨hmarks, flag, hforget, -⟩
  · rw [hmarks, hsame]
    exact h
  · rw [hmarks, hsettled, settled, h.idle]
    exact h
  · rw [hmarks, hcount]
    exact h.count hset hclear failed
  · rw [hmarks, hforget]
    exact .forget hset hclear flag past

/-- **The counters are the streaks** after every run. -/
theorem tracks_after (py : Text.Lower) (row : HostRow) (events : List Event) :
    Tracks (after py row events).1 (after py row events).2 := by
  induction events using List.reverseRecOn with
  | nil => exact .start (by decide) (by decide) row.portError
  | append_singleton events e ih =>
    rw [after, List.foldl_append]
    exact ih.step py e

/-! ### When the flag changes -/

/-- The flag changes from false to true only at a cycle that ends a run of three consecutive counted
failures, and from true to false only at a cycle that ends a run of two consecutive counted passes,
or where it is `cleared`. -/
def ChangesLawfully (py : Text.Lower) (s : HostState) (past : List Latch.Mark) (e : Event)
    (cleared : Prop) : Prop :=
  (s.row.portError = false → (e.step py s).row.portError = true →
    e.Counted py s.row true ∧ 3 ≤ Latch.failureStreak (.failure :: past)) ∧
  (s.row.portError = true → (e.step py s).row.portError = false →
    (e.Counted py s.row false ∧ 2 ≤ Latch.passStreak (.pass :: past)) ∨ cleared)

/-- **The flag changes lawfully**: it is cleared only when the host has no service check. -/
def Lawful (py : Text.Lower) (s : HostState) (past : List Latch.Mark) (e : Event) : Prop :=
  ChangesLawfully py s past e ((e.step py s).row.hasServiceCheck = false)

/-- The same, where an edit may clear the flag as well. -/
def LawfulEdits (py : Text.Lower) (s : HostState) (past : List Latch.Mark) (e : Event) : Prop :=
  ChangesLawfully py s past e ((e.step py s).row.hasServiceCheck = false ∨ e.Clears s.row)

theorem Tracks.lawfulEdits (h : Tracks s past) (py : Text.Lower) (e : Event) :
    LawfulEdits py s past e := by
  have hset : 0 < portErrorSetThreshold := by decide
  have hclear : 0 < portErrorClearThreshold := by decide
  have hflag : (e.step py s).row.portError = (e.step py s).latch.flag := rfl
  rw [LawfulEdits, ChangesLawfully, hflag]
  rcases step_cases py s e with ⟨-, hsame⟩ | ⟨failed, hcounted, -, hcount⟩ |
    ⟨-, flag, hforget, hwhy⟩
  · have hkept : (e.step py s).latch = s.latch := by
      rcases hsame with hsame | hsettled
      · exact hsame
      · rw [hsettled, settled, Latch.Tracks.idle h]
    rw [hkept]
    exact ⟨fun hfalse htrue => absurd (hfalse.symm.trans htrue) (by decide),
      fun htrue hfalse => absurd (htrue.symm.trans hfalse) (by decide)⟩
  · rw [hcount]
    refine ⟨fun hfalse htrue => ?_, fun htrue hfalse => .inl ?_⟩
    · obtain ⟨rfl, hstreak⟩ := Latch.Tracks.set h hset hfalse htrue
      exact ⟨hcounted, hstreak⟩
    · obtain ⟨rfl, hstreak⟩ := Latch.Tracks.clear h hclear htrue hfalse
      exact ⟨hcounted, hstreak⟩
  · rw [hforget]
    refine ⟨fun hfalse (htrue : flag = true) => ?_, fun htrue (hfalse : flag = false) => .inr ?_⟩
    · rcases hwhy with hsame | ⟨hcleared, -⟩
      · exact absurd (htrue.symm.trans (hsame.trans hfalse)) (by decide)
      · exact absurd (htrue.symm.trans hcleared) (by decide)
    · rcases hwhy with hsame | ⟨-, hcleared⟩
      · exact absurd (hfalse.symm.trans (hsame.trans htrue)) (by decide)
      · exact hcleared

/-- **In every run the flag changes lawfully**, or is cleared by an edit. -/
theorem lawfulEdits_after (py : Text.Lower) (row : HostRow) (events : List Event) (e : Event) :
    LawfulEdits py (after py row events).1 (after py row events).2 e :=
  (tracks_after py row events).lawfulEdits py e

/-- A host whose service does not answer. -/
def failingService (ct : String) : Outcome := ⟨ct = "icmp", none, none⟩

/-- **An edit clears the flag** of a host that still has a service check: after three failures the
check of a port is replaced by another one. -/
theorem not_lawful_sample :
    ¬∀ py row events e, Lawful py (after py row events).1 (after py row events).2 e := by
  intro h
  have hlaw := (h .asciiOnly ⟨some "icmp,tcp", none, false⟩
    (List.replicate 3 (.cycle failingService))
    (.updateHost (some (some "icmp,https")) none false)).2 (by decide +kernel) (by decide +kernel)
  rcases hlaw with ⟨hcounted, -⟩ | hcheck
  · exact hcounted
  · exact absurd hcheck (by decide +kernel)

end Nodeglow.PortErrors
