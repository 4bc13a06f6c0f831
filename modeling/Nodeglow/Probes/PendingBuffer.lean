import Mathlib.Data.List.DropRight
import Nodeglow.Probes.ResultDelivery

/-!
# The results that wait for a heartbeat

A probe process keeps the results since the last heartbeat that was answered, and of more than it
can buffer the latest. What is beyond is counted as dropped. The probe makes no checks while it
waits for an answer, so the results that an answer removes are those that were sent.

## Main results

* `buf_pushRound`, `dropped_pushRound` — a round of results.
* `InProcess.step` — one step.
* `accounted_of_run`, `accounted_of_run_sample` — every run of a process.

Source: `agent/src/checks.rs`, lines 119–176; `agent/src/main.rs`, lines 115–264.
-/

namespace Nodeglow.Probes.Delivery

/-! ### The buffer -/

section Buffer

variable {α : Type*}

theorem rtake_append_rtake (n : ℕ) (l l' : List α) :
    (l.rtake n ++ l').rtake n = (l ++ l').rtake n := by
  simp only [List.rtake_eq_reverse_take_reverse, List.reverse_append, List.reverse_reverse,
    List.take_append, List.take_take, List.length_reverse]
  congr 3
  omega

variable (p : PendingResults) (r : CheckResult) (results : List CheckResult)

theorem buf_push : (p.push r).buf = (p.buf ++ [r]).rtake maxPendingResults := by
  have hbounded := p.bounded
  rw [PendingResults.push, List.rtake, List.length_append, List.length_singleton]
  dsimp only
  split_ifs with hfull
  · have hone : p.buf.length + 1 - maxPendingResults = 1 := by omega
    rw [hone, List.drop_append_of_le_length (by
      have hpos : 0 < maxPendingResults := by decide
      omega)]
  · have hzero : p.buf.length + 1 - maxPendingResults = 0 := by omega
    rw [hzero, List.drop_zero]

/-- **A round of results**: the latest ones are kept. -/
theorem buf_pushRound : (p.pushRound results).buf = (p.buf ++ results).rtake maxPendingResults := by
  induction results generalizing p with
  | nil =>
    have hzero : p.buf.length - maxPendingResults = 0 := Nat.sub_eq_zero_of_le p.bounded
    rw [List.append_nil, List.rtake, hzero]
    rfl
  | cons r results ih =>
    have hfirst : (p.pushRound (r :: results)) = (p.push r).pushRound results := rfl
    rw [hfirst, ih, buf_push, rtake_append_rtake, List.append_assoc, List.singleton_append]

theorem dropped_push :
    (p.push r).dropped + (p.push r).buf.length = p.dropped + p.buf.length + 1 := by
  have hpos : 0 < maxPendingResults := by decide
  rw [PendingResults.push]
  dsimp only
  split_ifs with hfull
  · rw [List.length_append, List.length_drop, List.length_singleton]
    omega
  · rw [List.length_append, List.length_singleton]
    omega

/-- A result is kept or counted. -/
theorem dropped_pushRound : (p.pushRound results).dropped + (p.pushRound results).buf.length =
    p.dropped + p.buf.length + results.length := by
  induction results generalizing p with
  | nil => rfl
  | cons r results ih =>
    have hfirst : (p.pushRound (r :: results)) = (p.push r).pushRound results := rfl
    rw [hfirst, ih, dropped_push, List.length_cons]
    omega

end Buffer

/-! ### The results of a process -/

/-- The results that a process has produced, how many of them there were when it sent its last
heartbeat, and how many when it sent the last one that was answered. -/
structure Track where
  produced : List CheckResult
  snapshot : ℕ
  accepted : ℕ

/-- A process that has not produced anything. -/
def Track.start : Track := ⟨[], 0, 0⟩

/-- What a step adds, where the first result of the process has the number `first`. -/
def track (first : ℕ) (t : Track) : Event → Track
  | .collect checks =>
    { t with produced := t.produced ++ numbered (first + t.produced.length) checks }
  | .send => { t with snapshot := t.produced.length }
  | .answer _ => { t with accepted := t.snapshot }
  | _ => t

/-- The results that have left the buffer of a process because a heartbeat was answered. -/
def deliveredSince (s₀ s : State) : List CheckResult :=
  (s.delivered.drop s₀.delivered.length).map Prod.fst

/-- A process that has just started. -/
structure Fresh (s : State) : Prop where
  pending : s.pending = .new
  waiting : s.waiting = none

/-- **What becomes of the results**: the buffer has the latest of those since the last heartbeat
that was answered; the others that left it are delivered, in their order and each once, or counted.
-/
structure Accounted (s₀ s : State) (t : Track) : Prop where
  pending : s.pending.buf = (t.produced.drop t.accepted).rtake maxPendingResults
  ordered : (deliveredSince s₀ s).Sublist (t.produced.take t.accepted)
  once : (deliveredSince s₀ s).Nodup
  dropped : t.produced.length =
    (deliveredSince s₀ s).length + s.pending.buf.length + s.pending.dropped

/-- What holds after every step of a process. -/
structure InProcess (s₀ s : State) (t : Track) : Prop where
  next : s.next = s₀.next + t.produced.length
  nodup : t.produced.Nodup
  lt_next : ∀ r ∈ t.produced, r.no < s.next
  delivered : ∃ l, s.delivered = s₀.delivered ++ l
  accepted_le : t.accepted ≤ t.produced.length
  waiting : ∀ request ∈ s.waiting,
    s.sent[request]? = some s.pending.buf ∧ t.snapshot = t.produced.length
  pending : s.pending.buf = (t.produced.drop t.accepted).rtake maxPendingResults
  ordered : (deliveredSince s₀ s).Sublist (t.produced.take t.accepted)
  dropped : t.produced.length =
    (deliveredSince s₀ s).length + s.pending.buf.length + s.pending.dropped

variable {s₀ s s' : State} {t : Track} {e : Event}

theorem deliveredSince_append {l : List (CheckResult × Bool)} (s' : State)
    (h : ∃ l, s.delivered = s₀.delivered ++ l) (h' : s'.delivered = s.delivered ++ l) :
    deliveredSince s₀ s' = deliveredSince s₀ s ++ l.map Prod.fst := by
  obtain ⟨l', hl'⟩ := h
  rw [deliveredSince, deliveredSince, h', hl', List.append_assoc, List.drop_left, List.drop_left,
    List.map_append]

theorem InProcess.start (h : Fresh s) : InProcess s s .start := by
  have hnone : deliveredSince s s = [] := by
    rw [deliveredSince, List.drop_length, List.map_nil]
  refine ⟨rfl, .nil, nofun, ⟨[], (List.append_nil _).symm⟩, le_rfl, ?_, ?_, ?_, ?_⟩
  · rw [h.waiting]
    exact nofun
  · rw [h.pending]
    rfl
  · rw [hnone]
    exact List.nil_sublist _
  · rw [hnone, h.pending]
    rfl

/-- A round of checks. -/
theorem InProcess.collect (h : InProcess s₀ s t) (hwaiting : s.waiting = none)
    (checks : List Check) :
    InProcess s₀ { s with
      pending := s.pending.pushRound (numbered s.next checks)
      next := s.next + checks.length } (track s₀.next t (.collect checks)) := by
  have hnumbers : s₀.next + t.produced.length = s.next := h.next.symm
  have hlength : (numbered s.next checks).length = checks.length := by
    rw [numbered, List.length_map, List.length_zipIdx]
  refine ⟨?_, ?_, ?_, h.delivered, ?_, ?_, ?_, ?_, ?_⟩
  · simp only [track, List.length_append, hnumbers, hlength]
    have hnext := h.next
    omega
  · simp only [track, hnumbers]
    refine List.nodup_append.mpr ⟨h.nodup, nodup_numbered _ _, fun r hr r' hr' heq => ?_⟩
    have hlt := h.lt_next r hr
    have hle := (le_of_mem_numbered hr').1
    rw [heq] at hlt
    omega
  · simp only [track, hnumbers]
    intro r hr
    rcases List.mem_append.mp hr with hr | hr
    · exact (h.lt_next r hr).trans_le (Nat.le_add_right _ _)
    · exact (le_of_mem_numbered hr).2
  · simp only [track, List.length_append]
    exact h.accepted_le.trans (Nat.le_add_right _ _)
  · intro request hrequest
    exact absurd (hwaiting.symm.trans hrequest) (Option.some_ne_none request).symm
  · simp only [track, hnumbers]
    rw [buf_pushRound, h.pending, rtake_append_rtake,
      List.drop_append_of_le_length h.accepted_le]
  · simp only [track]
    rw [List.take_append_of_le_length h.accepted_le]
    exact h.ordered
  · simp only [track, List.length_append, hnumbers, hlength]
    have hround := dropped_pushRound s.pending (numbered s.next checks)
    have hdropped := h.dropped
    rw [hlength] at hround
    change _ = (deliveredSince s₀ s).length + _ + _
    omega

/-- A heartbeat is sent. -/
theorem InProcess.send (h : InProcess s₀ s t) :
    InProcess s₀ { s with waiting := some s.sent.length, sent := s.sent ++ [s.pending.buf] }
      (track s₀.next t .send) :=
  { h with
    waiting := by
      rintro request hrequest
      obtain rfl := Option.some.inj hrequest
      exact ⟨List.getElem?_concat_length, rfl⟩ }

/-- **A heartbeat is answered**: the results that were sent are delivered. -/
theorem InProcess.answer (h : InProcess s₀ s t) {request : ℕ} {results : List CheckResult}
    (hwaiting : s.waiting = some request) (hresults : s.sent[request]? = some results)
    (assigned : ℤ → Bool) (index : ℕ) :
    InProcess s₀ { s with
      pending := s.pending.clear
      waiting := none
      delivered := s.delivered ++ results.map fun r => (r, assigned r.check.hostId) }
        (track s₀.next t (.answer index)) := by
  obtain ⟨hsent, hsnapshot⟩ := h.waiting request hwaiting
  obtain rfl : results = s.pending.buf := Option.some.inj (hresults.symm.trans hsent)
  have hdelivered := deliveredSince_append { s with
    pending := s.pending.clear
    waiting := none
    delivered := s.delivered ++ s.pending.buf.map fun r => (r, assigned r.check.hostId) }
    h.delivered rfl
  have hmap : (s.pending.buf.map fun r => (r, assigned r.check.hostId)).map Prod.fst =
      s.pending.buf := by
    rw [List.map_map]
    exact List.map_id _
  rw [hmap] at hdelivered
  refine ⟨h.next, h.nodup, h.lt_next, ?_, ?_, nofun, ?_, ?_, ?_⟩
  · obtain ⟨l, hl⟩ := h.delivered
    exact ⟨_, by rw [hl, List.append_assoc]⟩
  · exact hsnapshot.le
  · simp only [track, hsnapshot, List.drop_length]
    rfl
  · simp only [track, hsnapshot, List.take_length]
    rw [hdelivered]
    have hbuf : s.pending.buf.Sublist (t.produced.drop t.accepted) := by
      rw [h.pending]
      exact List.drop_sublist _ _
    have hall := h.ordered.append hbuf
    rwa [List.take_append_drop] at hall
  · rw [hdelivered, List.length_append]
    have hdropped := h.dropped
    change t.produced.length = _ + 0 + s.pending.dropped
    omega

/-- **One step** of a process. -/
theorem InProcess.step (h : InProcess s₀ s t) (hrestart : e ≠ .restart)
    (he : step s e = some s') : InProcess s₀ s' (track s₀.next t e) := by
  cases e with
  | collect checks =>
    obtain ⟨hwaiting, he⟩ := Option.ite_none_right_eq_some.mp he
    cases he
    exact h.collect hwaiting checks
  | send =>
    obtain ⟨-, he⟩ := Option.ite_none_right_eq_some.mp he
    cases he
    exact h.send
  | handle request handling =>
    obtain ⟨results, -, rfl⟩ := Option.map_eq_some_iff.mp he
    exact { h with }
  | answer index =>
    obtain ⟨handling, -, he⟩ := Option.bind_eq_some_iff.mp he
    obtain ⟨results, hresults, he⟩ := Option.bind_eq_some_iff.mp he
    obtain ⟨⟨hwaiting, -⟩, he⟩ := Option.ite_none_right_eq_some.mp he
    cases he
    exact h.answer hwaiting hresults handling.2.assigned index
  | giveUp =>
    obtain ⟨-, he⟩ := Option.ite_none_left_eq_some.mp he
    cases he
    exact { h with waiting := nofun }
  | restart => exact absurd rfl hrestart

/-- What holds of a process can be accounted for. -/
theorem InProcess.accounted (h : InProcess s₀ s t) : Accounted s₀ s t where
  pending := h.pending
  ordered := h.ordered
  once := (h.nodup.sublist (List.take_sublist _ _)).sublist h.ordered
  dropped := h.dropped

/-! ### Runs -/

theorem inProcess_of_run {l : List Event}
    (hrun : Run (fun s e s' => Delivery.step s e = some s') s l s')
    (hl : ∀ e ∈ l, e ≠ .restart) (h : InProcess s₀ s t) :
    InProcess s₀ s' (l.foldl (track s₀.next) t) := by
  induction hrun generalizing t with
  | nil => exact h
  | cons he _ ih =>
    obtain ⟨hhead, hl⟩ := List.forall_mem_cons.mp hl
    exact ih hl (h.step hhead he)

/-- **Every run of a process**: whatever heartbeats fail, the buffer has the latest results since
the last one that was answered, each result is delivered at most once, and the counter tells how
many are lost. -/
theorem accounted_of_run {l : List Event} (hfresh : Fresh s)
    (hrun : Run (fun s e s' => Delivery.step s e = some s') s l s')
    (hl : ∀ e ∈ l, e ≠ .restart) :
    Accounted s s' (l.foldl (track s.next) .start) :=
  (inProcess_of_run hrun hl (.start hfresh)).accounted

/-- A heartbeat that is lost, and one that is answered. -/
theorem accounted_of_run_sample :
    ∃ s, Run (fun s e s' => Delivery.step s e = some s') .init afterLoss s ∧
      (deliveredSince .init s).length = 2 ∧
        Accounted .init s (afterLoss.foldl (track 0) .start) := by
  have hend : (afterLoss.foldlM Delivery.step State.init).map
      (fun s => (deliveredSince .init s).length) = some 2 := by
    decide
  obtain ⟨s, hs, hlength⟩ := Option.map_eq_some_iff.mp hend
  have hrun := Run.of_foldlM hs
  exact ⟨s, hrun, hlength, accounted_of_run ⟨rfl, rfl⟩ hrun (by simp [afterLoss])⟩

end Nodeglow.Probes.Delivery
