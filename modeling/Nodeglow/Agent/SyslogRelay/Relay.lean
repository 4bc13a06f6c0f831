import Nodeglow.Agent.SyslogRelay.Buffer
import Nodeglow.Agent.SyslogRelay.Framer
import Nodeglow.Foundation.Run
import Nodeglow.Foundation.Text

/-!
# Delivery of relayed messages

The listeners of the relay put received messages into the buffer (`Relay.accept`), and a single
forwarder takes batches out of it and sends them to the backend. A batch is in flight until the
backend answers: it is then taken, refused for good, or put back into a buffer that has changed in
the meantime. The relay reports five counters in its heartbeat.

A state (`Relay`) holds the buffer, the counters, the batch in flight and the retry state of the
forwarder. Its last four fields record the history of the run and are read by no operation: the
sequence of received entries, the entries of the batches the backend accepted, and how many
messages were dropped before and after receipt. Entries carry the number of their reception, so
that two equal lines are two entries.

A step (`Relay.step`) is one accepted message, one report of the listeners, one `take_batch` or one
answer of the backend. The runs of these steps are all interleavings of the listeners with the
forwarder.

## Main results

* `Relay.Inv.step` — every step keeps the invariant.
* `Relay.delivery` — the invariant in every reachable state.

Source: `agent/src/syslog_relay.rs`, lines 309–393 and 517–574; `agent/src/client.rs`,
lines 246–274 and 334–365.
-/

namespace Nodeglow.SyslogRelay

/-- Entries per request; the backend takes at most 500 per call. -/
def batchSize : ℕ := 500

/-- Approximate payload bytes per request. -/
def batchMaxBytes : ℕ := 1024 * 1024

/-- Seconds between two flushes. -/
def flushInterval : ℕ := 2

/-- The longest wait, in seconds, before a failed batch is sent again. -/
def retryBackoffMax : ℕ := 60

/-! ### Configuration -/

/-- The `syslog_relay` value of a heartbeat, as far as it is read: the boolean at `enabled` and the
unsigned integer at `port`, where they are such. -/
structure RelayValue where
  enabled : Option Bool
  port : Option ℕ
  deriving DecidableEq, Repr

/-- What the server asked for. -/
structure RelayConfig where
  port : ℕ
  deriving DecidableEq, Repr

/-- Port the relay listens on when the server names none. -/
def defaultPort : ℕ := 514

/-- Read the value leniently: a malformed one just means "off", or the default port. -/
def RelayConfig.fromServer (value : Option RelayValue) : Option RelayConfig := do
  let v ← value
  if !v.enabled.getD false then none
  else some ⟨(v.port.filter fun p => 0 < p && p ≤ 65535).getD defaultPort⟩

/-! ### Answers of the backend -/

/-- What became of a relayed batch the backend answered. -/
inductive RelaySent
  /-- The backend stored `accepted` entries and dropped `rejected` of them. -/
  | done (accepted rejected : ℕ)
  /-- The backend refused the whole batch for good. -/
  | refused (status : ℕ)
  deriving DecidableEq, Repr

/-- Read the count of stored entries from the answer to a batch of `sent` entries. The rest of the
batch counts as rejected; a backend that does not say took the batch. -/
def RelaySent.fromResponse (sent : ℕ) (count : Option ℕ) : RelaySent :=
  let accepted := (count.map fun c => min c sent).getD sent
  .done accepted (sent - accepted)

/-- A 4xx that resending cannot fix. -/
def relayStatusIsPermanent (status : ℕ) : Bool :=
  400 ≤ status && status < 500 && !([401, 403, 404, 408, 425, 429].contains status)

/-- How one request ended: without an answer, or with a status and a body. -/
inductive HttpResult
  | networkError
  | response (status : ℕ) (body : String)
  deriving DecidableEq, Repr

/-- What the relay uses of the standard library and of its JSON parser. -/
structure RelayEnv where
  /-- `String::from_utf8_lossy`. -/
  fromUtf8Lossy : List UInt8 → String
  /-- The textual form of an address. -/
  ipToString : UInt32 ⊕ BitVec 128 → String
  /-- The unsigned integer at the key `count` of a JSON body, if there is one. -/
  countField : String → Option ℕ

/-- The outcome of sending a batch of `sent` entries; without a value the batch is retried. -/
def sendRelayLogs (env : RelayEnv) (sent : ℕ) : HttpResult → Option RelaySent
  | .networkError => none
  | .response status body =>
      if 200 ≤ status ∧ status < 300 then some (.fromResponse sent (env.countField body))
      else if relayStatusIsPermanent status then some (.refused status)
      else none

/-- Of an answered batch, every entry is accepted or rejected. -/
theorem accepted_add_rejected {env : RelayEnv} {sent accepted rejected : ℕ} {result : HttpResult}
    (h : sendRelayLogs env sent result = some (.done accepted rejected)) :
    accepted + rejected = sent := by
  cases result with
  | networkError => exact absurd h (by simp [sendRelayLogs])
  | response status body =>
    simp only [sendRelayLogs, RelaySent.fromResponse] at h
    split_ifs at h
    · obtain ⟨rfl, rfl⟩ := RelaySent.done.inj (Option.some.inj h)
      have hle : ((env.countField body).map fun c => min c sent).getD sent ≤ sent := by
        cases env.countField body <;> simp
      omega
    · exact absurd h (by simp)

/-! ### Received messages -/

/-- A received entry with the number of its reception. -/
structure Received where
  seq : ℕ
  entry : RelayEntry
  deriving DecidableEq, Repr

instance : HasSize Received where
  size r := size r.entry

/-- The line without CR, LF and NUL at its ends. -/
def trimLine (text : String) : String :=
  Text.trimMatches (fun c => c == '\r' || c == '\n' || c == '\x00') text

/-- An IPv4 device seen through a dual-stack socket is still an IPv4 device. -/
def plainIp : UInt32 ⊕ BitVec 128 → UInt32 ⊕ BitVec 128
  | .inl v4 => .inl v4
  | .inr v6 => if v6.toNat / 2 ^ 32 = 0xffff then .inl (.ofNat (v6.toNat % 2 ^ 32)) else .inr v6

/-- The shared state of the listeners and the forwarder, the batch in flight, and the history. -/
structure Relay where
  buffer : RelayBuffer Received
  received : ℕ
  forwarded : ℕ
  rejected : ℕ
  dropped : ℕ
  sendFailures : ℕ
  /-- The batch that was taken and not answered yet, empty if there is none. -/
  inFlight : List Received
  failing : Bool
  /-- Seconds to wait before the next attempt while `failing`. -/
  backoff : ℕ
  /-- History: every received entry, in order of reception. -/
  arrived : List Received
  /-- History: the entries of the batches the backend accepted, in order of delivery. -/
  handedOver : List Received
  /-- History: messages dropped before they counted as received. -/
  droppedBefore : ℕ
  /-- History: received messages that were dropped later. -/
  droppedAfter : ℕ

namespace Relay

/-- A relay that has received nothing. -/
def start (maxEntries maxBytes : ℕ) : Relay where
  buffer := .new maxEntries maxBytes
  received := 0
  forwarded := 0
  rejected := 0
  dropped := 0
  sendFailures := 0
  inFlight := []
  failing := false
  backoff := flushInterval
  arrived := []
  handedOver := []
  droppedBefore := 0
  droppedAfter := 0

/-- One message off the wire. -/
def accept (env : RelayEnv) (s : Relay) (frame : List UInt8) (ip : UInt32 ⊕ BitVec 128)
    (transport : Transport) (now : String) : Relay :=
  if maxMessageBytes < frame.length then
    { s with dropped := s.dropped + 1, droppedBefore := s.droppedBefore + 1 }
  else
    let text := trimLine (env.fromUtf8Lossy frame)
    if (Text.trim text).isEmpty then s
    else
      let entry : Received := ⟨s.arrived.length, text, env.ipToString (plainIp ip), now, transport⟩
      let r := s.buffer.push entry
      { s with
        received := s.received + 1
        buffer := r.1
        dropped := s.dropped + r.2
        arrived := s.arrived ++ [entry]
        droppedAfter := s.droppedAfter + r.2 }

/-- The forwarder takes the next batch. -/
def takeBatch (s : Relay) : Relay :=
  let r := s.buffer.takeBatch batchSize batchMaxBytes
  { s with inFlight := r.1, buffer := r.2 }

/-- The forwarder reads the answer to the batch in flight. -/
def answer (env : RelayEnv) (s : Relay) (result : HttpResult) : Relay :=
  match sendRelayLogs env s.inFlight.length result with
  | some (.done accepted rejected) =>
      { s with
        forwarded := s.forwarded + accepted
        rejected := s.rejected + rejected
        failing := false
        backoff := flushInterval
        inFlight := []
        handedOver := s.handedOver ++ s.inFlight }
  | some (.refused _) =>
      { s with
        rejected := s.rejected + s.inFlight.length
        failing := false
        backoff := flushInterval
        inFlight := [] }
  | none =>
      let r := s.buffer.requeueFront s.inFlight
      { s with
        sendFailures := s.sendFailures + 1
        buffer := r.1
        dropped := s.dropped + r.2
        backoff := if s.failing then min (s.backoff * 2) retryBackoffMax else flushInterval
        failing := true
        inFlight := []
        droppedAfter := s.droppedAfter + r.2 }

/-- What can happen to the relay. -/
inductive Label
  | accept (frame : List UInt8) (ip : UInt32 ⊕ BitVec 128) (transport : Transport) (now : String)
  /-- The listeners drop `n` messages that never reach `accept`. -/
  | listenerDrop (n : ℕ)
  | takeBatch
  | answer (result : HttpResult)

/-- One step. The forwarder takes a batch only when none is in flight, and waits for the answer to
the one it took. -/
def step (env : RelayEnv) (s : Relay) : Label → Option Relay
  | .accept frame ip transport now => some (s.accept env frame ip transport now)
  | .listenerDrop n =>
      some { s with dropped := s.dropped + n, droppedBefore := s.droppedBefore + n }
  | .takeBatch => if s.inFlight = [] then some s.takeBatch else none
  | .answer result => if s.inFlight ≠ [] then some (s.answer env result) else none

/-! ### The invariant -/

/-- The invariant of the relay. The entries handed over, in flight and buffered are, in this order,
a subsequence of the received ones, and every received entry is counted in exactly one place. -/
structure Inv (maxEntries maxBytes : ℕ) (s : Relay) : Prop where
  valid : s.buffer.Valid
  maxEntries_eq : s.buffer.maxEntries = max maxEntries 1
  maxBytes_eq : s.buffer.maxBytes = max maxBytes 1
  order : (s.handedOver ++ (s.inFlight ++ s.buffer.entries)).Sublist s.arrived
  numbered : s.arrived.map Received.seq = List.range s.arrived.length
  received_eq : s.received = s.arrived.length
  balance : s.received = s.forwarded + s.rejected + s.buffer.entries.length + s.inFlight.length +
    s.droppedAfter
  dropped_eq : s.dropped = s.droppedBefore + s.droppedAfter

variable {maxEntries maxBytes : ℕ} {s : Relay}

theorem inv_start (maxEntries maxBytes : ℕ) : Inv maxEntries maxBytes (start maxEntries maxBytes) where
  valid := RelayBuffer.valid_new maxEntries maxBytes
  maxEntries_eq := rfl
  maxBytes_eq := rfl
  order := List.Sublist.slnil
  numbered := rfl
  received_eq := rfl
  balance := rfl
  dropped_eq := rfl

theorem Inv.accept (h : Inv maxEntries maxBytes s) (env : RelayEnv) (frame : List UInt8)
    (ip : UInt32 ⊕ BitVec 128) (transport : Transport) (now : String) :
    Inv maxEntries maxBytes (s.accept env frame ip transport now) := by
  unfold Relay.accept
  split_ifs with hlong
  · exact { h with dropped_eq := by simp only [h.dropped_eq]; omega }
  · dsimp only
    split_ifs with hblank
    · exact h
    generalize hentry : (⟨s.arrived.length, _, _, _, _⟩ : Received) = entry
    obtain ⟨gone, kept, hsplit, hdropped, hpush, -⟩ := RelayBuffer.push_entries h.valid entry
    have hlen := congrArg List.length hsplit
    rw [List.length_append] at hlen
    refine ⟨h.valid.push entry, ?_, ?_, ?_, ?_, ?_, ?_, ?_⟩
    · simpa only [hpush] using h.maxEntries_eq
    · simpa only [hpush] using h.maxBytes_eq
    · -- the evicted entries leave the middle of the sequence, the new one is its last
      have horder := h.order
      rw [hsplit] at horder
      have hsub : (s.handedOver ++ (s.inFlight ++ kept)).Sublist s.arrived :=
        (((List.sublist_append_right gone kept).append_left _).append_left _).trans horder
      simpa only [hpush, List.append_assoc] using hsub.append_right [entry]
    · simp only [List.map_append, h.numbered, List.map_cons, List.map_nil, List.length_append,
        List.length_singleton, List.range_succ, ← hentry]
    · simp only [List.length_append, List.length_singleton, h.received_eq]
    · have hbal := h.balance
      simp only [hpush, hdropped, List.length_append, List.length_singleton]
      omega
    · simp only [h.dropped_eq, Nat.add_assoc]

theorem Inv.takeBatch (h : Inv maxEntries maxBytes s) (hidle : s.inFlight = []) :
    Inv maxEntries maxBytes s.takeBatch := by
  obtain ⟨batch, rest, hsplit, htake⟩ :=
    RelayBuffer.takeBatch_entries h.valid batchSize batchMaxBytes
  have hvalid := h.valid.takeBatch batchSize batchMaxBytes
  have hlen := congrArg List.length hsplit
  have hbal := h.balance
  have horder := h.order
  rw [List.length_append] at hlen
  rw [hidle, List.nil_append, hsplit] at horder
  rw [hidle] at hbal
  unfold Relay.takeBatch
  rw [htake] at hvalid ⊢
  refine { h with
    valid := hvalid
    order := horder
    balance := ?_ }
  simp only [List.length_nil] at hbal ⊢
  omega

/-- An answer disposes of the whole batch: its entries are counted as forwarded or rejected, put
back, or dropped. -/
theorem Inv.answer (h : Inv maxEntries maxBytes s) (env : RelayEnv) (result : HttpResult) :
    Inv maxEntries maxBytes (s.answer env result) := by
  have hbal := h.balance
  have hrest : (s.handedOver ++ s.buffer.entries).Sublist s.arrived :=
    (((List.sublist_append_right s.inFlight s.buffer.entries).append_left _)).trans h.order
  unfold Relay.answer
  cases hsent : sendRelayLogs env s.inFlight.length result with
  | some sent =>
    cases sent with
    | done accepted rejected =>
      have hsum : accepted + rejected = s.inFlight.length := accepted_add_rejected hsent
      refine { h with order := ?_, balance := ?_ }
      · simpa only [List.nil_append, List.append_assoc] using h.order
      · simp only [List.length_nil]
        omega
    | refused status =>
      refine { h with order := hrest, balance := ?_ }
      simp only [List.length_nil]
      omega
  | none =>
    obtain ⟨kept, hsub, hcount, hbuf, hvalid⟩ := RelayBuffer.requeueFront_entries h.valid s.inFlight
    refine { h with
      valid := hvalid
      maxEntries_eq := by simpa only [hbuf] using h.maxEntries_eq
      maxBytes_eq := by simpa only [hbuf] using h.maxBytes_eq
      order := ?_
      balance := ?_
      dropped_eq := by simp only [h.dropped_eq, Nat.add_assoc] }
    · simpa only [hbuf, List.nil_append] using
        ((hsub.append_right s.buffer.entries).append_left s.handedOver).trans h.order
    · simp only [hbuf, List.length_append, List.length_nil]
      omega

/-- **Every step keeps the invariant.** -/
theorem Inv.step (h : Inv maxEntries maxBytes s) {env : RelayEnv} {a : Label} {s' : Relay}
    (hstep : s.step env a = some s') : Inv maxEntries maxBytes s' := by
  cases a with
  | accept frame ip transport now =>
    obtain rfl := Option.some.inj hstep
    exact h.accept env frame ip transport now
  | listenerDrop n =>
    obtain rfl := Option.some.inj hstep
    exact { h with dropped_eq := by simp only [h.dropped_eq]; omega }
  | takeBatch =>
    simp only [Relay.step, Option.ite_none_right_eq_some, Option.some.injEq] at hstep
    obtain ⟨hidle, rfl⟩ := hstep
    exact h.takeBatch hidle
  | answer result =>
    simp only [Relay.step, Option.ite_none_right_eq_some, Option.some.injEq] at hstep
    obtain ⟨-, rfl⟩ := hstep
    exact h.answer env result

/-- **Relay delivery.** In every state that any interleaving of receptions, batches and answers
reaches, the byte counter is exact, the buffer keeps its limits, the entries of the accepted
batches are received entries, none twice and in order of reception, and every received message is
forwarded, rejected, buffered, in flight or counted as dropped. -/
theorem delivery (env : RelayEnv) {l : List Label}
    (h : Run (fun s a s' => s.step env a = some s') (start maxEntries maxBytes) l s) :
    s.buffer.bytes = (s.buffer.entries.map size).sum ∧
      s.buffer.entries.length ≤ max maxEntries 1 ∧
      (s.buffer.entries.length ≠ 1 → s.buffer.bytes ≤ max maxBytes 1) ∧
      (s.handedOver.Sublist s.arrived ∧ s.handedOver.Nodup ∧ s.arrived.length = s.received) ∧
      s.received = s.forwarded + s.rejected + s.buffer.entries.length + s.inFlight.length +
        s.droppedAfter ∧
      s.dropped = s.droppedBefore + s.droppedAfter := by
  have hinv : Inv maxEntries maxBytes s :=
    h.invariant (fun _ _ _ hi hs => hi.step hs) (inv_start maxEntries maxBytes)
  have hsub : s.handedOver.Sublist s.arrived := (List.sublist_append_left _ _).trans hinv.order
  have hnodup : s.arrived.Nodup := by
    apply List.Nodup.of_map Received.seq
    rw [hinv.numbered]
    exact List.nodup_range
  exact ⟨hinv.valid.bytes_eq, hinv.maxEntries_eq ▸ hinv.valid.length_le,
    fun hne => hinv.maxBytes_eq ▸ hinv.valid.bytes_le hne,
    ⟨hsub, hnodup.sublist hsub, hinv.received_eq.symm⟩, hinv.balance, hinv.dropped_eq⟩

/-- A line is received, its batch fails and is put back, a second line arrives, and both are
delivered. -/
theorem delivery_after_retry :
    let env : RelayEnv := ⟨fun b => String.ofList (b.map fun c => Char.ofNat c.toNat),
      fun _ => "10.0.0.5", fun _ => none⟩
    let line : Label := .accept [60, 49, 62, 97] (.inl 0x0A000005) .udp "2026-10-11T10:00:00.000Z"
    ∃ s, [line, .takeBatch, .answer (.response 503 ""), line, .takeBatch,
        .answer (.response 200 "")].foldlM (step env) (start 2 1000) = some s ∧
      s.forwarded = 2 ∧ s.handedOver.Nodup ∧
      s.received = s.forwarded + s.rejected + s.buffer.entries.length + s.inFlight.length +
        s.droppedAfter := by
  intro env line
  obtain ⟨s, hs⟩ := Option.isSome_iff_exists.mp (show ([line, .takeBatch,
    .answer (.response 503 ""), line, .takeBatch, .answer (.response 200 "")].foldlM (step env)
      (start 2 1000)).isSome = true by decide)
  have hforwarded : s.forwarded = 2 := by
    have hmap := congrArg (Option.map Relay.forwarded) hs
    exact (Option.some.inj (hmap.symm.trans (by decide)))
  obtain ⟨-, -, -, ⟨-, hnodup, -⟩, hbal, -⟩ := delivery env (Run.of_foldlM hs)
  exact ⟨s, hs, hforwarded, hnodup, hbal⟩

end Relay

end Nodeglow.SyslogRelay
