import Mathlib.Algebra.BigOperators.Group.List.Basic
import Mathlib.Algebra.GroupWithZero.Nat
import Mathlib.Data.List.DropRight
import Mathlib.Order.Lattice

/-!
# The bounded buffer of the relay

Received lines wait for delivery in a FIFO bounded by a number of entries and by a number of
bytes. A new line evicts the oldest ones until it fits (`RelayBuffer.push`); the forwarder takes
the oldest lines as one batch (`RelayBuffer.takeBatch`) and puts an undelivered batch back in front
(`RelayBuffer.requeueFront`), where lines that do not fit are discarded.

The buffer looks at an entry only through its size, so it is stated for any type of entries with a
size; the relay uses it with `RelayEntry`.

## Main results

* `RelayBuffer.push_entries`, `RelayBuffer.takeBatch_entries`, `RelayBuffer.requeueFront_entries`:
  what each operation keeps and discards.
* `RelayBuffer.Valid.push`, `RelayBuffer.Valid.takeBatch`, `RelayBuffer.Valid.requeueFront`.

Source: `agent/src/syslog_relay.rs`, lines 84–183.
-/

namespace Nodeglow.SyslogRelay

/-- The transport a line arrived on. -/
inductive Transport
  | udp
  | tcp
  deriving DecidableEq, Repr

/-- One received syslog line as the backend expects it. -/
structure RelayEntry where
  /-- The message as received, framing removed. -/
  raw : String
  /-- Address of the device that sent it. -/
  sourceIp : String
  /-- When this probe received it. -/
  receivedAt : String
  transport : Transport
  deriving DecidableEq, Repr

/-- Entries with a size in bytes. -/
class HasSize (ε : Type*) where
  size : ε → ℕ

export HasSize (size)

/-- The size of an entry on the wire; the JSON around it is roughly constant. -/
instance : HasSize RelayEntry where
  size e := e.raw.utf8ByteSize + e.sourceIp.utf8ByteSize + e.receivedAt.utf8ByteSize + 64

/-- Bounded FIFO of entries waiting for delivery, the oldest first. -/
structure RelayBuffer (ε : Type*) where
  entries : List ε
  bytes : ℕ
  maxEntries : ℕ
  maxBytes : ℕ
  deriving DecidableEq, Repr

namespace RelayBuffer

variable {ε : Type*} [HasSize ε]

def new (maxEntries maxBytes : ℕ) : RelayBuffer ε :=
  ⟨[], 0, max maxEntries 1, max maxBytes 1⟩

def fits (b : RelayBuffer ε) (sz : ℕ) : Bool :=
  b.entries.length < b.maxEntries && b.bytes + sz ≤ b.maxBytes

/-- The loop of `push` that discards the oldest entries until an entry of size `sz` fits, run on
the entries and the byte counter of the buffer. -/
def evict (b : RelayBuffer ε) (sz : ℕ) : List ε → ℕ → ℕ → RelayBuffer ε × ℕ
  | [], bytes, dropped => ({ b with entries := [], bytes := bytes }, dropped)
  | old :: rest, bytes, dropped =>
      let b' : RelayBuffer ε := { b with entries := old :: rest, bytes := bytes }
      if b'.fits sz then (b', dropped) else evict b sz rest (bytes - size old) (dropped + 1)

/-- Append an entry, discarding the oldest ones until it fits; also how many were discarded. -/
def push (b : RelayBuffer ε) (entry : ε) : RelayBuffer ε × ℕ :=
  let r := b.evict (size entry) b.entries b.bytes 0
  ({ r.1 with entries := r.1.entries ++ [entry], bytes := r.1.bytes + size entry }, r.2)

/-- The loop of `takeBatch`: the batch so far and its bytes are carried along. -/
def takeLoop (b : RelayBuffer ε) (maxEntries maxBytes : ℕ) :
    List ε → ℕ → ℕ → List ε → List ε × RelayBuffer ε
  | [], bufBytes, _, batch => (batch, { b with entries := [], bytes := bufBytes })
  | e :: rest, bufBytes, bytes, batch =>
      if batch.length < maxEntries ∧ ¬(batch ≠ [] ∧ maxBytes < bytes + size e) then
        takeLoop b maxEntries maxBytes rest (bufBytes - size e) (bytes + size e) (batch ++ [e])
      else (batch, { b with entries := e :: rest, bytes := bufBytes })

/-- Take the oldest entries for one request: at most `maxEntries`, and no more than `maxBytes`, but
always at least one if any are waiting. -/
def takeBatch (b : RelayBuffer ε) (maxEntries maxBytes : ℕ) : List ε × RelayBuffer ε :=
  b.takeLoop maxEntries maxBytes b.entries b.bytes 0 []

/-- Put an undelivered batch back in front, in its order; the newest entry goes first, and an entry
that does not fit is discarded. Also how many were discarded. -/
def requeueFront (b : RelayBuffer ε) (batch : List ε) : RelayBuffer ε × ℕ :=
  batch.foldr (fun entry r =>
    if r.1.fits (size entry) then
      ({ r.1 with entries := entry :: r.1.entries, bytes := r.1.bytes + size entry }, r.2)
    else (r.1, r.2 + 1)) (b, 0)

/-! ### What the operations keep -/

/-- The total size of a list of entries. -/
def totalSize (es : List ε) : ℕ := (es.map size).sum

@[simp] theorem totalSize_nil : totalSize ([] : List ε) = 0 := rfl

@[simp] theorem totalSize_cons (e : ε) (es : List ε) :
    totalSize (e :: es) = size e + totalSize es := by
  simp [totalSize]

@[simp] theorem totalSize_append (es es' : List ε) :
    totalSize (es ++ es') = totalSize es + totalSize es' := by
  simp [totalSize]

/-- The byte counter is exact, and the buffer keeps its limits: at most `maxEntries` entries, and
at most `maxBytes` bytes unless it holds a single entry. -/
structure Valid (b : RelayBuffer ε) : Prop where
  bytes_eq : b.bytes = totalSize b.entries
  maxEntries_pos : 0 < b.maxEntries
  length_le : b.entries.length ≤ b.maxEntries
  bytes_le : b.entries.length ≠ 1 → b.bytes ≤ b.maxBytes

theorem valid_new (maxEntries maxBytes : ℕ) : (new maxEntries maxBytes : RelayBuffer ε).Valid where
  bytes_eq := rfl
  maxEntries_pos := by simp [new]
  length_le := by simp [new]
  bytes_le _ := by simp [new]

/-- Eviction removes a first part of the entries, counts it, and stops as soon as the new entry
fits or nothing is left. -/
theorem evict_spec (b : RelayBuffer ε) (sz : ℕ) (es : List ε) (bytes dropped : ℕ)
    (hbytes : bytes = totalSize es) :
    ∃ gone kept, es = gone ++ kept ∧
      b.evict sz es bytes dropped =
        ({ b with entries := kept, bytes := totalSize kept }, dropped + gone.length) ∧
      (kept = [] ∨ (kept.length < b.maxEntries ∧ totalSize kept + sz ≤ b.maxBytes)) := by
  induction es generalizing bytes dropped with
  | nil =>
    subst hbytes
    exact ⟨[], [], rfl, rfl, Or.inl rfl⟩
  | cons old rest ih =>
    subst hbytes
    by_cases hfits : (⟨old :: rest, totalSize (old :: rest), b.maxEntries, b.maxBytes⟩ :
        RelayBuffer ε).fits sz = true
    · refine ⟨[], old :: rest, rfl, by rw [evict, if_pos hfits]; rfl, Or.inr ?_⟩
      simpa [fits] using hfits
    · obtain ⟨gone, kept, rfl, hev, hkept⟩ :=
        ih (totalSize (old :: rest) - size old) (dropped + 1) (by simp)
      refine ⟨old :: gone, kept, rfl, ?_, hkept⟩
      rw [evict, if_neg hfits, hev, List.length_cons, Nat.add_right_comm, Nat.add_assoc]

/-- A push keeps the newest entries in order, counts the discarded ones, and ends with the new
entry. -/
theorem push_entries {b : RelayBuffer ε} (hb : b.Valid) (entry : ε) :
    ∃ gone kept, b.entries = gone ++ kept ∧ (b.push entry).2 = gone.length ∧
      (b.push entry).1 = { b with entries := kept ++ [entry],
                                  bytes := totalSize (kept ++ [entry]) } ∧
      (kept = [] ∨ (kept.length < b.maxEntries ∧
        totalSize kept + size entry ≤ b.maxBytes)) := by
  obtain ⟨gone, kept, hsplit, hev, hkept⟩ :=
    b.evict_spec (size entry) b.entries b.bytes 0 hb.bytes_eq
  refine ⟨gone, kept, hsplit, ?_, ?_, hkept⟩
  · simp [push, hev]
  · simp [push, hev]

theorem Valid.push {b : RelayBuffer ε} (hb : b.Valid) (entry : ε) : (b.push entry).1.Valid := by
  obtain ⟨gone, kept, -, -, hpush, hkept⟩ := push_entries hb entry
  have hpos := hb.maxEntries_pos
  rw [hpush]
  refine ⟨rfl, hpos, ?_, fun hlen => ?_⟩
  · rcases hkept with rfl | ⟨hlt, -⟩
    · simpa using Nat.succ_le_of_lt hpos
    · simpa using Nat.succ_le_of_lt hlt
  · rcases hkept with rfl | ⟨-, hle⟩
    · exact absurd rfl hlen
    · simpa using hle

theorem takeLoop_spec (b : RelayBuffer ε) (maxEntries maxBytes : ℕ) (es : List ε)
    (bufBytes bytes : ℕ) (batch : List ε) (hbytes : bufBytes = totalSize es) :
    ∃ taken rest, es = taken ++ rest ∧
      b.takeLoop maxEntries maxBytes es bufBytes bytes batch =
        (batch ++ taken, { b with entries := rest, bytes := totalSize rest }) := by
  induction es generalizing bufBytes bytes batch with
  | nil =>
    subst hbytes
    exact ⟨[], [], rfl, by simp [takeLoop]⟩
  | cons e es ih =>
    subst hbytes
    rw [takeLoop]
    split_ifs
    · obtain ⟨taken, rest, rfl, htake⟩ :=
        ih (totalSize (e :: es) - size e) (bytes + size e) (batch ++ [e]) (by simp)
      exact ⟨e :: taken, rest, rfl, by rw [htake]; simp⟩
    · exact ⟨[], e :: es, rfl, by simp⟩

/-- A batch is a first part of the buffer, which keeps the rest. -/
theorem takeBatch_entries {b : RelayBuffer ε} (hb : b.Valid) (maxEntries maxBytes : ℕ) :
    ∃ batch rest, b.entries = batch ++ rest ∧
      b.takeBatch maxEntries maxBytes =
        (batch, { b with entries := rest, bytes := totalSize rest }) := by
  obtain ⟨batch, rest, hsplit, htake⟩ :=
    b.takeLoop_spec maxEntries maxBytes b.entries b.bytes 0 [] hb.bytes_eq
  exact ⟨batch, rest, hsplit, by simpa [takeBatch] using htake⟩

theorem Valid.takeBatch {b : RelayBuffer ε} (hb : b.Valid) (maxEntries maxBytes : ℕ) :
    (b.takeBatch maxEntries maxBytes).2.Valid := by
  obtain ⟨batch, rest, hsplit, htake⟩ := takeBatch_entries hb maxEntries maxBytes
  have hlen := congrArg List.length hsplit
  have hle := hb.length_le
  rw [List.length_append] at hlen
  rw [htake]
  refine ⟨rfl, hb.maxEntries_pos, by dsimp only; omega, fun hne => ?_⟩
  dsimp only at hne ⊢
  have hsum : b.bytes = totalSize batch + totalSize rest := by
    rw [hb.bytes_eq, hsplit, totalSize_append]
  by_cases hone : b.entries.length = 1
  · -- a single entry was taken away, or stays as it is
    have hrest : rest = [] := List.eq_nil_of_length_eq_zero (by omega)
    simp [hrest]
  · have := hb.bytes_le hone
    omega

/-- A requeued batch stands in its order before what was in the buffer, less the discarded
entries, which are counted. -/
theorem requeueFront_entries {b : RelayBuffer ε} (hb : b.Valid) (batch : List ε) :
    ∃ kept, kept.Sublist batch ∧ (b.requeueFront batch).2 + kept.length = batch.length ∧
      (b.requeueFront batch).1 = { b with entries := kept ++ b.entries,
                                          bytes := totalSize (kept ++ b.entries) } ∧
      (b.requeueFront batch).1.Valid := by
  induction batch with
  | nil => exact ⟨[], List.Sublist.slnil, rfl, by simp [requeueFront, ← hb.bytes_eq], hb⟩
  | cons e batch ih =>
    obtain ⟨kept, hsub, hcount, hb', hvalid⟩ := ih
    have hstep : b.requeueFront (e :: batch) =
        if (b.requeueFront batch).1.fits (size e) then
          ({ (b.requeueFront batch).1 with
              entries := e :: (b.requeueFront batch).1.entries,
              bytes := (b.requeueFront batch).1.bytes + size e }, (b.requeueFront batch).2)
        else ((b.requeueFront batch).1, (b.requeueFront batch).2 + 1) := rfl
    rw [hstep]
    split_ifs with hfits
    · refine ⟨e :: kept, hsub.cons_cons e, by simp only [List.length_cons]; omega, ?_, ?_⟩
      · rw [hb']
        simp [Nat.add_comm]
      · have hfits' := hfits
        rw [fits, Bool.and_eq_true, decide_eq_true_eq, decide_eq_true_eq] at hfits'
        refine ⟨?_, hvalid.maxEntries_pos, ?_, fun _ => hfits'.2⟩
        · simp only [totalSize_cons, hvalid.bytes_eq]
          omega
        · simpa using Nat.succ_le_of_lt hfits'.1
    · exact ⟨kept, hsub.cons e, by simp only [List.length_cons]; omega, hb', hvalid⟩

end RelayBuffer

end Nodeglow.SyslogRelay
