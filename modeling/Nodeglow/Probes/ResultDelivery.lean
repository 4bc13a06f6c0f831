import Mathlib.Algebra.Order.Field.Rat
import Mathlib.Data.Fintype.Defs
import Nodeglow.Foundation.Run

/-!
# The delivery of check results

A probe checks the hosts that are assigned to it, and sends the results with its next heartbeat. It
keeps them in a bounded buffer until a heartbeat is answered, and clears the buffer then; when no
answer comes, the results are sent again with the next heartbeat. The core stores the results of the
hosts that are assigned to the probe. When they cannot be stored, this is logged, and the heartbeat
is answered all the same.

Requests and answers may be lost, and a request may arrive after the probe has given it up, or
twice. The core may fail while it handles a heartbeat, before or after the results are stored.

So results are lost when they cannot be stored, and stored twice when the answer is lost. Otherwise
each result whose heartbeat was answered is stored, and none is stored twice (`exactly_once`).

## Main results

* `Inv.step` — the invariant of the steps that meet the condition.
* `insertFails_loses_answerLost_duplicates` — the two failures.

Source: `agent/src/checks.rs`, lines 51 and 119–176; `agent/src/main.rs`, lines 80–206;
`backend/routers/agents.py`, lines 399–525 and 551–607.
-/

namespace Nodeglow.Probes.Delivery

/-! ### The probe -/

/-- A check that was made. -/
structure Check where
  hostId : ℤ
  success : Bool
  latency : Option ℚ
  ts : ℤ
  deriving DecidableEq, Repr

/-- `CheckResult`, with the number of the check, which tells equal results apart. -/
structure CheckResult where
  no : ℕ
  check : Check
  deriving DecidableEq, Repr

/-- The results of a round of checks. -/
def numbered (next : ℕ) (checks : List Check) : List CheckResult :=
  checks.zipIdx.map fun c => ⟨next + c.2, c.1⟩

/-- `MAX_PENDING_RESULTS`. -/
def maxPendingResults : ℕ := 1000

/-- `PendingResults`. -/
structure PendingResults where
  buf : List CheckResult
  dropped : ℕ
  bounded : buf.length ≤ maxPendingResults

namespace PendingResults

/-- `PendingResults::new`. -/
def new : PendingResults := ⟨[], 0, Nat.zero_le _⟩

/-- One turn of the loop in `push_round`. -/
def push (p : PendingResults) (r : CheckResult) : PendingResults where
  buf := (if maxPendingResults ≤ p.buf.length then p.buf.drop 1 else p.buf) ++ [r]
  dropped := if maxPendingResults ≤ p.buf.length then p.dropped + 1 else p.dropped
  bounded := by
    have hp := p.bounded
    have hmax : 0 < maxPendingResults := by decide
    split_ifs <;> simp <;> omega

/-- `push_round`. -/
def pushRound (p : PendingResults) (results : List CheckResult) : PendingResults :=
  results.foldl push p

/-- `clear`. -/
def clear (p : PendingResults) : PendingResults := { p with buf := [], bounded := Nat.zero_le _ }

end PendingResults

/-! ### The core -/

/-- What happens while a heartbeat is handled: which hosts are assigned to the probe, whether the
agent is a probe, and what fails. -/
structure Handling where
  assigned : ℤ → Bool
  isProbe : Bool
  failsBefore : Bool
  insertFails : Bool
  failsAfter : Bool

/-- The results that `_record_probe_results` inserts: those of assigned hosts. -/
def recordProbeResults (assigned : ℤ → Bool) (results : List CheckResult) : List CheckResult :=
  results.filter fun r => assigned r.check.hostId

/-- The results that `_handle_report` stores. -/
def storedBy (h : Handling) (results : List CheckResult) : List CheckResult :=
  if h.failsBefore || !h.isProbe || h.insertFails then [] else recordProbeResults h.assigned results

/-- Whether `_handle_report` answers: a failing insert does not keep it from that. -/
def answers (h : Handling) : Bool := !h.failsBefore && !h.failsAfter

/-! ### The system -/

/-- The probe, with the request that it waits for; the requests sent, and how they were handled; the
result store; and the results that have left the buffer because a heartbeat was answered, with
whether the host was assigned then. -/
structure State where
  pending : PendingResults
  next : ℕ
  waiting : Option ℕ
  sent : List (List CheckResult)
  handled : List (ℕ × Handling)
  store : List CheckResult
  delivered : List (CheckResult × Bool)

/-- Nothing is checked or stored. -/
def State.init : State := ⟨.new, 0, none, [], [], [], []⟩

/-- What can happen. -/
inductive Event
  /-- The probe makes a round of checks. -/
  | collect (checks : List Check)
  /-- It sends a heartbeat. -/
  | send
  /-- The core handles a request. -/
  | handle (request : ℕ) (h : Handling)
  /-- The answer of a handling arrives. -/
  | answer (index : ℕ)
  /-- The probe has no answer, or one that reports a failure. -/
  | giveUp
  /-- The probe starts anew. -/
  | restart

/-- A step of the system. The probe makes its checks between the heartbeats. -/
def step (s : State) : Event → Option State
  | .collect checks =>
    if s.waiting = none then
      some { s with
        pending := s.pending.pushRound (numbered s.next checks)
        next := s.next + checks.length }
    else none
  | .send =>
    if s.waiting = none then
      some { s with waiting := some s.sent.length, sent := s.sent ++ [s.pending.buf] }
    else none
  | .handle request h =>
    s.sent[request]?.map fun results =>
      { s with handled := s.handled ++ [(request, h)], store := s.store ++ storedBy h results }
  | .answer index =>
    s.handled[index]?.bind fun handling =>
      s.sent[handling.1]?.bind fun results =>
        if s.waiting = some handling.1 ∧ answers handling.2 then
          some { s with
            pending := s.pending.clear
            waiting := none
            delivered := s.delivered ++
              results.map fun r => (r, handling.2.assigned r.check.hostId) }
        else none
  | .giveUp => if s.waiting = none then none else some { s with waiting := none }
  | .restart => some { s with pending := .new, waiting := none }

/-- Every result that has left the buffer because a heartbeat was answered is stored, if its host
was assigned when the heartbeat was handled; and no result is stored twice. -/
structure Delivered (s : State) : Prop where
  stored : ∀ r, (r, true) ∈ s.delivered → r ∈ s.store
  once : s.store.Nodup

/-- Whether a request was handled, and results of it stored. -/
def State.HasStored (s : State) (request : ℕ) : Prop :=
  ∃ handling ∈ s.handled, handling.1 = request ∧
    ∃ results ∈ s.sent[request]?, storedBy handling.2 results ≠ []

instance (s : State) (request : ℕ) : Decidable (s.HasStored request) :=
  inferInstanceAs (Decidable (∃ _ ∈ _, _))

/-- For a heartbeat with results of assigned hosts: where it is answered, the agent is a probe and
the insert succeeds; where they are stored, the probe waits for it, and they were not stored before;
and it is not given up after they were stored. -/
def Settled (s : State) : Event → Prop
  | .handle request h => ∀ results ∈ s.sent[request]?, recordProbeResults h.assigned results ≠ [] →
      h.failsBefore = false →
        (h.failsAfter = false → h.isProbe = true ∧ h.insertFails = false) ∧
        (h.isProbe = true → h.insertFails = false →
          s.waiting = some request ∧ ¬s.HasStored request)
  | .giveUp => ∀ request ∈ s.waiting, ¬s.HasStored request
  | _ => True

instance (s : State) (e : Event) : Decidable (Settled s e) := by
  unfold Settled
  split <;> infer_instance

variable {s s' : State} {e : Event}

/-! ### The buffer -/

theorem PendingResults.push_suffix (p : PendingResults) (r : CheckResult) :
    (p.push r).buf <:+ p.buf ++ [r] := by
  simp only [push]
  split_ifs
  · exact List.suffix_append_self_iff.mpr (List.drop_suffix 1 p.buf)
  · exact List.suffix_refl _

/-- Only results that were buffered or are new are buffered. -/
theorem PendingResults.pushRound_suffix (p : PendingResults) (results : List CheckResult) :
    (p.pushRound results).buf <:+ p.buf ++ results := by
  induction results generalizing p with
  | nil => simp [pushRound]
  | cons r results ih =>
    have hfirst : (p.push r).buf ++ results <:+ p.buf ++ [r] ++ results :=
      List.suffix_append_self_iff.mpr (p.push_suffix r)
    rw [List.append_assoc] at hfirst
    exact (ih (p.push r)).trans hfirst

theorem no_numbered (next : ℕ) (checks : List Check) :
    (numbered next checks).map CheckResult.no = (List.range checks.length).map (next + ·) := by
  have hindex : checks.zipIdx.map Prod.snd = List.range checks.length := by
    rw [List.zipIdx_map_snd, List.range_eq_range']
  rw [← hindex, numbered, List.map_map, List.map_map]
  rfl

theorem le_of_mem_numbered {next : ℕ} {checks : List Check} {r : CheckResult}
    (h : r ∈ numbered next checks) : next ≤ r.no ∧ r.no < next + checks.length := by
  have hno : r.no ∈ (numbered next checks).map CheckResult.no := List.mem_map_of_mem h
  rw [no_numbered, List.mem_map] at hno
  obtain ⟨i, hi, hno⟩ := hno
  rw [List.mem_range] at hi
  omega

theorem nodup_numbered (next : ℕ) (checks : List Check) : (numbered next checks).Nodup := by
  apply List.Nodup.of_map CheckResult.no
  rw [no_numbered]
  exact List.nodup_range.map fun _ _ h => by simpa using h

/-! ### The handling of a heartbeat -/

theorem mem_storedBy {h : Handling} {results : List CheckResult} {r : CheckResult} :
    r ∈ storedBy h results ↔ (h.failsBefore = false ∧ h.isProbe = true ∧ h.insertFails = false) ∧
      r ∈ recordProbeResults h.assigned results := by
  simp only [storedBy]
  split_ifs with hfails
  · simp only [List.not_mem_nil, false_iff, not_and]
    intro hok
    simp [hok] at hfails
  · simp only [Bool.or_eq_true, Bool.not_eq_true', not_or] at hfails
    simp [hfails]

/-! ### The invariant -/

/-- What holds of every state that is reached by steps that meet the condition: buffered results are
stored only while the probe waits for an answer that is on its way. -/
structure Inv (s : State) : Prop where
  fresh : ∀ r ∈ s.pending.buf, r.no < s.next
  freshStore : ∀ r ∈ s.store, r.no < s.next
  nodup : s.pending.buf.Nodup
  once : s.store.Nodup
  waiting : ∀ request, s.waiting = some request → s.sent[request]? = some s.pending.buf
  inFlight : ∀ r ∈ s.pending.buf, r ∈ s.store →
    ∃ request, s.waiting = some request ∧ s.HasStored request
  handled : ∀ handling ∈ s.handled, handling.1 < s.sent.length
  answered : ∀ handling ∈ s.handled, answers handling.2 = true →
    ∀ results ∈ s.sent[handling.1]?, ∀ r ∈ results,
      handling.2.assigned r.check.hostId = true → r ∈ s.store
  stored : ∀ r, (r, true) ∈ s.delivered → r ∈ s.store

theorem Inv.init : Inv State.init where
  fresh _ h := nomatch h
  freshStore _ h := nomatch h
  nodup := .nil
  once := .nil
  waiting _ h := nomatch h
  inFlight _ h := nomatch h
  handled _ h := nomatch h
  answered _ h := nomatch h
  stored _ h := nomatch h

/-- Where the probe does not wait, nothing that is buffered is stored. -/
theorem Inv.notMem_store (h : Inv s) (hwaiting : s.waiting = none) {r : CheckResult}
    (hr : r ∈ s.pending.buf) : r ∉ s.store := by
  intro hstore
  obtain ⟨request, hrequest, -⟩ := h.inFlight r hr hstore
  rw [hwaiting] at hrequest
  cases hrequest

theorem Inv.collect (h : Inv s) (hwaiting : s.waiting = none) (checks : List Check) :
    Inv { s with
      pending := s.pending.pushRound (numbered s.next checks)
      next := s.next + checks.length } := by
  have hsuffix := s.pending.pushRound_suffix (numbered s.next checks)
  have hmem {r : CheckResult} (hr : r ∈ (s.pending.pushRound (numbered s.next checks)).buf) :
      r ∈ s.pending.buf ∨ r ∈ numbered s.next checks :=
    List.mem_append.mp (hsuffix.subset hr)
  exact
    { h with
      fresh := by
        intro r hr
        change r.no < s.next + checks.length
        rcases hmem hr with hold | hnew
        · exact (h.fresh r hold).trans_le (Nat.le_add_right _ _)
        · exact (le_of_mem_numbered hnew).2
      freshStore := fun r hr => (h.freshStore r hr).trans_le (Nat.le_add_right _ _)
      nodup := by
        refine hsuffix.sublist.nodup (List.nodup_append.mpr ⟨h.nodup, nodup_numbered _ _, ?_⟩)
        rintro r hr _ hnew rfl
        have hlt := h.fresh r hr
        have hle := (le_of_mem_numbered hnew).1
        omega
      waiting := fun request hrequest => absurd (hwaiting.symm.trans hrequest) (by simp)
      inFlight := by
        intro r hr hstore
        rcases hmem hr with hold | hnew
        · exact absurd hstore (h.notMem_store hwaiting hold)
        · have hlt := h.freshStore r hstore
          have hle := (le_of_mem_numbered hnew).1
          omega }

theorem Inv.send (h : Inv s) (hwaiting : s.waiting = none) :
    Inv { s with waiting := some s.sent.length, sent := s.sent ++ [s.pending.buf] } :=
  { h with
    waiting := by
      rintro request ⟨⟩
      simp
    inFlight := fun r hr hstore => absurd hstore (h.notMem_store hwaiting hr)
    handled := by
      intro handling hmem
      have hlt := h.handled handling hmem
      simp only [List.length_append]
      omega
    answered := by
      intro handling hmem hanswers results hresults
      rw [List.getElem?_append_left (h.handled handling hmem)] at hresults
      exact h.answered handling hmem hanswers results hresults }

theorem Inv.handle (h : Inv s) {request : ℕ} {handling : Handling} {results : List CheckResult}
    (hresults : s.sent[request]? = some results) (hsettled : Settled s (.handle request handling)) :
    Inv { s with
      handled := s.handled ++ [(request, handling)]
      store := s.store ++ storedBy handling results } := by
  have hcond := hsettled results hresults
  -- Results that are stored now are those that the probe waits with.
  have hnew (hne : storedBy handling results ≠ []) :
      s.waiting = some request ∧ ¬s.HasStored request ∧ results = s.pending.buf := by
    obtain ⟨r, hr⟩ := List.exists_mem_of_ne_nil _ hne
    obtain ⟨⟨hbefore, hprobe, hinsert⟩, hrecord⟩ := mem_storedBy.mp hr
    obtain ⟨hwaiting, hnot⟩ := (hcond (List.ne_nil_of_mem hrecord) hbefore).2 hprobe hinsert
    refine ⟨hwaiting, hnot, ?_⟩
    exact Option.some.inj (hresults.symm.trans (h.waiting request hwaiting))
  have hmono {r : CheckResult} (hr : r ∈ s.store) : r ∈ s.store ++ storedBy handling results :=
    List.mem_append_left _ hr
  have hsubset {r : CheckResult} (hr : r ∈ storedBy handling results) : r ∈ results :=
    List.mem_of_mem_filter (mem_storedBy.mp hr).2
  exact
    { h with
      freshStore := by
        intro r hr
        rcases List.mem_append.mp hr with hold | hr
        · exact h.freshStore r hold
        · obtain ⟨-, -, heq⟩ := hnew (List.ne_nil_of_mem hr)
          exact h.fresh r (heq ▸ hsubset hr)
      once := by
        refine List.nodup_append.mpr ⟨h.once, ?_, ?_⟩
        · by_cases hne : storedBy handling results = []
          · rw [hne]
            exact .nil
          · obtain ⟨-, -, heq⟩ := hnew hne
            simp only [storedBy]
            split_ifs
            · exact .nil
            · exact (heq ▸ h.nodup).filter _
        · rintro r hold _ hr rfl
          obtain ⟨hwaiting, hnot, heq⟩ := hnew (List.ne_nil_of_mem hr)
          obtain ⟨request', hrequest', hhas⟩ := h.inFlight r (heq ▸ hsubset hr) hold
          obtain rfl : request' = request := Option.some.inj (hrequest'.symm.trans hwaiting)
          exact hnot hhas
      inFlight := by
        intro r hr hstore
        rcases List.mem_append.mp hstore with hold | hstored
        · obtain ⟨request', hrequest', handling', hmem, hhas⟩ := h.inFlight r hr hold
          exact ⟨request', hrequest', handling', List.mem_append_left _ hmem, hhas⟩
        · have hne := List.ne_nil_of_mem hstored
          exact ⟨request, (hnew hne).1, (request, handling), by simp, rfl, results, hresults, hne⟩
      handled := by
        intro handling' hmem
        rcases List.mem_append.mp hmem with hmem | hmem
        · exact h.handled handling' hmem
        · rw [List.mem_singleton.mp hmem]
          exact (List.getElem?_eq_some_iff.mp hresults).1
      answered := by
        intro handling' hmem hanswers results' hresults' r hr hassigned
        rcases List.mem_append.mp hmem with hmem | hmem
        · exact hmono (h.answered handling' hmem hanswers results' hresults' r hr hassigned)
        · obtain rfl := List.mem_singleton.mp hmem
          obtain rfl : results = results' := Option.some.inj (hresults.symm.trans hresults')
          have hrecord : r ∈ recordProbeResults handling.assigned results :=
            List.mem_filter.mpr ⟨hr, hassigned⟩
          simp only [answers, Bool.and_eq_true, Bool.not_eq_true'] at hanswers
          have hok := (hcond (List.ne_nil_of_mem hrecord) hanswers.1).1 hanswers.2
          exact List.mem_append_right _ (mem_storedBy.mpr ⟨⟨hanswers.1, hok⟩, hrecord⟩)
      stored := fun r hr => hmono (h.stored r hr) }

theorem Inv.answer (h : Inv s) {handling : ℕ × Handling} {results : List CheckResult}
    (hmem : handling ∈ s.handled) (hresults : s.sent[handling.1]? = some results)
    (hanswers : answers handling.2 = true) :
    Inv { s with
      pending := s.pending.clear
      waiting := none
      delivered := s.delivered ++ results.map fun r => (r, handling.2.assigned r.check.hostId) } :=
  { h with
    fresh := fun _ hr => nomatch hr
    nodup := .nil
    waiting := fun _ h => nomatch h
    inFlight := fun _ hr => nomatch hr
    stored := by
      intro r hr
      rcases List.mem_append.mp hr with hr | hr
      · exact h.stored r hr
      · obtain ⟨r', hr', heq⟩ := List.mem_map.mp hr
        obtain ⟨rfl, hassigned⟩ := Prod.ext_iff.mp heq
        exact h.answered handling hmem hanswers results hresults r' hr' hassigned }

theorem Inv.giveUp (h : Inv s) (hsettled : Settled s .giveUp) : Inv { s with waiting := none } :=
  { h with
    waiting := fun _ h => nomatch h
    inFlight := by
      intro r hr hstore
      obtain ⟨request, hrequest, hhas⟩ := h.inFlight r hr hstore
      exact absurd hhas (hsettled request hrequest) }

theorem Inv.restart (h : Inv s) : Inv { s with pending := .new, waiting := none } :=
  { h with
    fresh := fun _ hr => nomatch hr
    nodup := .nil
    waiting := fun _ h => nomatch h
    inFlight := fun _ hr => nomatch hr }

/-- **Every step** that meets the condition keeps the invariant. -/
theorem Inv.step (h : Inv s) (hsettled : Settled s e) (he : step s e = some s') : Inv s' := by
  cases e with
  | collect checks =>
    obtain ⟨hwaiting, he⟩ := Option.ite_none_right_eq_some.mp he
    cases he
    exact h.collect hwaiting checks
  | send =>
    obtain ⟨hwaiting, he⟩ := Option.ite_none_right_eq_some.mp he
    cases he
    exact h.send hwaiting
  | handle request handling =>
    obtain ⟨results, hresults, rfl⟩ := Option.map_eq_some_iff.mp he
    exact h.handle hresults hsettled
  | answer index =>
    obtain ⟨handling, hhandling, he⟩ := Option.bind_eq_some_iff.mp he
    obtain ⟨results, hresults, he⟩ := Option.bind_eq_some_iff.mp he
    obtain ⟨⟨-, hanswers⟩, he⟩ := Option.ite_none_right_eq_some.mp he
    cases he
    exact h.answer (List.mem_of_getElem? hhandling) hresults hanswers
  | giveUp =>
    obtain ⟨-, he⟩ := Option.ite_none_left_eq_some.mp he
    cases he
    exact h.giveUp hsettled
  | restart =>
    cases he
    exact h.restart

/-! ### Runs -/

/-- **Exactly once**: in every run in which inserts succeed and answers to stored results arrive,
every result whose heartbeat was answered is stored, and none twice. -/
theorem exactly_once {l : List Event}
    (h : Run (Guarded Settled fun s e s' => step s e = some s') .init l s) : Delivered s := by
  have hinv : Inv s := h.invariant (fun _ _ _ hs he => hs.step he.1 he.2) .init
  exact ⟨hinv.stored, hinv.once⟩

/-- A handling in which nothing fails, for a probe with one host. -/
def handled : Handling := ⟨(· = 1), true, false, false, false⟩

/-- A check of that host. -/
def someCheck : Check := ⟨1, true, none, 0⟩

/-- A heartbeat whose results are stored, after one that was lost. -/
def afterLoss : List Event :=
  [.collect [someCheck], .send, .giveUp, .collect [someCheck], .send, .handle 1 handled, .answer 0]

/-- A heartbeat whose results cannot be stored. -/
def insertFails : List Event :=
  [.collect [someCheck], .send, .handle 0 { handled with insertFails := true }, .answer 0]

/-- A heartbeat whose answer is lost. -/
def answerLost : List Event :=
  [.collect [someCheck], .send, .handle 0 handled, .giveUp, .send, .handle 1 handled]

theorem exactly_once_afterLoss :
    ∃ s, Run (fun s e s' => step s e = some s') .init afterLoss s ∧
      s.store = [⟨0, someCheck⟩, ⟨1, someCheck⟩] ∧ s.delivered.length = 2 ∧ Delivered s := by
  have hend : (afterLoss.foldlM (fun s e => if Settled s e then step s e else none) State.init).map
      (fun s => (s.store, s.delivered.length)) = some ([⟨0, someCheck⟩, ⟨1, someCheck⟩], 2) := by
    decide
  obtain ⟨s, hs, hlists⟩ := Option.map_eq_some_iff.mp hend
  obtain ⟨hstore, hdelivered⟩ := Prod.ext_iff.mp hlists
  have hrun := Run.guarded_of_foldlM hs
  exact ⟨s, hrun.of_guarded, hstore, hdelivered, exactly_once hrun⟩

/-- **A failing insert** loses results, and **a lost answer** stores them twice. -/
theorem insertFails_loses_answerLost_duplicates :
    (¬∀ (l : List Event) (s : State), Run (fun s e s' => step s e = some s') .init l s →
      ∀ r, (r, true) ∈ s.delivered → r ∈ s.store) ∧
    ¬∀ (l : List Event) (s : State), Run (fun s e s' => step s e = some s') .init l s →
      s.store.Nodup := by
  constructor
  · intro h
    have hend : (insertFails.foldlM step State.init).map (fun s => (s.store, s.delivered)) =
        some ([], [(⟨0, someCheck⟩, true)]) := by
      decide
    obtain ⟨s, hs, hlists⟩ := Option.map_eq_some_iff.mp hend
    have hstore : s.store = [] := congrArg Prod.fst hlists
    have hdelivered : s.delivered = [(⟨0, someCheck⟩, true)] := congrArg Prod.snd hlists
    have hmem := h _ s (Run.of_foldlM hs) ⟨0, someCheck⟩ (by simp [hdelivered])
    rw [hstore] at hmem
    cases hmem
  · intro h
    have hend : (answerLost.foldlM step State.init).map State.store =
        some [⟨0, someCheck⟩, ⟨0, someCheck⟩] := by
      decide
    obtain ⟨s, hs, hstore⟩ := Option.map_eq_some_iff.mp hend
    have hnodup := h _ s (Run.of_foldlM hs)
    rw [hstore] at hnodup
    revert hnodup
    decide

end Nodeglow.Probes.Delivery
