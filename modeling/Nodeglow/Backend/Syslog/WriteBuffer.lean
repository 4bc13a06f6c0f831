import Mathlib.Data.List.Basic
import Mathlib.Data.Int.Notation

/-!
# The write buffer of the syslog service

Messages are appended to a buffer and written in batches. A flush takes the whole buffer and then
inserts it, one insert at a time, while further messages are appended. If the insert fails the batch
is put back in front. Beyond a hard cap the oldest messages are dropped and counted; a message that
nobody has attributed to a tenant is dropped and counted at once.

A flusher task flushes periodically, or earlier when a batch is full; where there is no flusher the
one that fills the batch flushes it. Stopping the server cancels the flusher, which raises in its
insert if there is one, and flushes once more.

Neither lock is held when a task is suspended, other than the insert lock during an insert, so that
one event is what a task does between two suspensions. An insert that fails or is cancelled may have
stored any of its rows: the client gives up a request that the server has carried out or goes on
with. The queue of received datagrams is left out: what the worker and the stopping server take from
it they enqueue.

Source: `backend/services/syslog.py`, lines 686–783, 816–829 and 1191–1220.
-/

namespace Nodeglow.Syslog

variable {μ : Type}

/-- The settings, and the tenant of a message. -/
structure BufferConfig (μ : Type) where
  /-- `_BUFFER_SIZE`. -/
  bufferSize : ℕ
  /-- `_BUFFER_MAX`. -/
  bufferMax : ℕ
  tenant : μ → Option ℤ

/-- A message, with the number of messages before it. -/
structure Entry (μ : Type) where
  seq : ℕ
  message : μ
  deriving DecidableEq, Repr

/-- Who calls `_flush_buffer`. -/
inductive Flusher
  /-- `_flush_loop`. -/
  | loop
  /-- `_enqueue`, where there is no flusher task. -/
  | inline
  /-- `stop_syslog_server`. -/
  | final
  deriving DecidableEq, Repr

/-- An insert in flight. -/
structure Insert (μ : Type) where
  caller : Flusher
  batch : List (Entry μ)
  /-- Its task has been cancelled. -/
  cancelled : Bool

inductive ServerPhase
  | off
  | running
  /-- The flusher is cancelled, and queued messages are enqueued. -/
  | stopping
  /-- The final flush is awaited. -/
  | flushing
  deriving DecidableEq, Repr

/-- The messages on their way, and the tasks. -/
structure Pipeline (μ : Type) where
  buffer : List (Entry μ)
  inserting : Option (Insert μ)
  /-- The tasks that wait for the insert lock. -/
  waiting : List Flusher
  phase : ServerPhase
  stored : List (Entry μ)
  /-- The messages counted as `buffer_overflow`. -/
  overflow : List (Entry μ)
  /-- The messages counted as `no_tenant`. -/
  noTenant : List (Entry μ)
  /-- All messages that `_enqueue` has been called with. -/
  enqueued : List (Entry μ)
  /-- How many these were when the server was stopped. -/
  stoppedAt : Option ℕ

inductive PipelineEvent (μ : Type)
  | enqueue (m : μ)
  /-- The flusher wakes up, by its timeout or because a batch is full. -/
  | tick
  /-- The first task in the queue takes the insert lock. -/
  | grant
  | succeed
  /-- The insert raises, and the server stores the rows with some numbers all the same. -/
  | fail (stored : ℕ → Bool)
  /-- The insert raises `CancelledError`, likewise. -/
  | cancelInsert (stored : ℕ → Bool)
  /-- A task is cancelled while it waits for the lock. -/
  | cancelWait (f : Flusher)
  | start
  | stop
  /-- The final flush of the stopping server. -/
  | flush

namespace Pipeline

section Model

variable (c : BufferConfig μ) (w : Pipeline μ)

/-- The messages of the insert in flight. -/
def inFlight : List (Entry μ) := (w.inserting.map Insert.batch).getD []

/-- `_trim_buffer_locked`. -/
def trim : Pipeline μ :=
  { w with
    buffer := w.buffer.drop (w.buffer.length - c.bufferMax)
    overflow := w.overflow ++ w.buffer.take (w.buffer.length - c.bufferMax) }

/-- `_flush_buffer` returns. For the stopping server this is the end. -/
def returned (f : Flusher) : Pipeline μ :=
  if f = .final then { w with phase := .off, stoppedAt := some w.enqueued.length } else w

/-- `_flush_buffer` has the insert lock. -/
def takeBatch (f : Flusher) : Pipeline μ :=
  if w.buffer = [] then w.returned f
  else { w with buffer := [], inserting := some ⟨f, w.buffer, false⟩ }

/-- `_flush_buffer`. -/
def flushBuffer (f : Flusher) : Pipeline μ :=
  if w.inserting.isNone ∧ w.waiting = [] then w.takeBatch f
  else { w with waiting := w.waiting ++ [f] }

/-- `_enqueue`; where a flusher runs it is only woken. -/
def enqueue (m : μ) : Pipeline μ :=
  let e : Entry μ := ⟨w.enqueued.length, m⟩
  let w := { w with enqueued := w.enqueued ++ [e] }
  match c.tenant m with
  | none => { w with noTenant := w.noTenant ++ [e] }
  | some _ =>
      let w := { w with buffer := w.buffer ++ [e] }.trim c
      if c.bufferSize ≤ w.buffer.length ∧ w.phase ≠ .running then w.flushBuffer .inline else w

/-- The flusher is not in a flush. -/
def loopIdle : Bool :=
  Flusher.loop ∉ w.waiting && w.inserting.all fun i => i.caller ≠ .loop || i.cancelled

/-- One event; it has no value where the event cannot happen. -/
def step : PipelineEvent μ → Option (Pipeline μ)
  | .enqueue m => some (w.enqueue c m)
  | .tick => if w.phase = .running ∧ w.loopIdle then some (w.flushBuffer .loop) else none
  | .grant =>
      match w.inserting, w.waiting with
      | none, f :: rest => some ({ w with waiting := rest }.takeBatch f)
      | _, _ => none
  | .succeed =>
      match w.inserting with
      | some ⟨f, batch, false⟩ =>
          some ({ w with inserting := none, stored := w.stored ++ batch }.returned f)
      | _ => none
  | .fail stored =>
      match w.inserting with
      | some ⟨f, batch, false⟩ =>
          some (({ w with
            inserting := none
            buffer := batch ++ w.buffer
            stored := w.stored ++ batch.filter fun e : Entry μ => stored e.seq }.trim c).returned f)
      | _ => none
  | .cancelInsert stored =>
      match w.inserting with
      | some ⟨f, batch, cancelled⟩ =>
          if f = .loop ∧ cancelled = false then none
          else some { w with
            inserting := none
            stored := w.stored ++ batch.filter fun e : Entry μ => stored e.seq
            phase := if f = .final then .off else w.phase }
      | none => none
  | .cancelWait f =>
      if f ∈ w.waiting ∧ f ≠ .loop then
        some { w with
          waiting := w.waiting.erase f
          phase := if f = .final then .off else w.phase }
      else none
  | .start => if w.phase = .off then some { w with phase := .running } else none
  | .stop =>
      if w.phase = .off ∨ w.phase = .running then
        some { w with
          phase := .stopping
          waiting := w.waiting.filter (· ≠ .loop)
          inserting := w.inserting.map fun i =>
            if i.caller = .loop then { i with cancelled := true } else i }
      else none
  | .flush =>
      if w.phase = .stopping then some ({ w with phase := .flushing }.flushBuffer .final) else none

/-- The transition relation of `Pipeline.step`. -/
def Step (w : Pipeline μ) (e : PipelineEvent μ) (w' : Pipeline μ) : Prop := w.step c e = some w'

/-- Nothing has been received. -/
def init : Pipeline μ where
  buffer := []
  inserting := none
  waiting := []
  phase := .off
  stored := []
  overflow := []
  noTenant := []
  enqueued := []
  stoppedAt := none

/-- Where a message can be. -/
def places : List (Entry μ) :=
  w.stored ++ w.inFlight ++ w.buffer ++ w.overflow ++ w.noTenant

/-- The final insert is in flight. -/
def InsertsFinally : Prop := ∃ i, w.inserting = some i ∧ i.caller = .final

/-- **What conservation relies on.** An insert that fails has stored nothing, and one that is
cancelled all of its rows; and while the final insert is in flight, it does not fail and no message
is enqueued for a tenant. -/
def Undisturbed : PipelineEvent μ → Prop
  | .enqueue m => c.tenant m ≠ none → ¬ w.InsertsFinally
  | .fail stored => ¬ w.InsertsFinally ∧ ∀ e ∈ w.inFlight, stored e.seq = false
  | .cancelInsert stored => ∀ e ∈ w.inFlight, stored e.seq = true
  | _ => True

end Model

end Pipeline

end Nodeglow.Syslog
