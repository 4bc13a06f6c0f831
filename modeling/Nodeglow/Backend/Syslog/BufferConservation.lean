import Mathlib.Algebra.Order.Group.Multiset
import Mathlib.Data.List.Range
import Mathlib.Tactic.Abel
import Nodeglow.Backend.Syslog.WriteBuffer
import Nodeglow.Foundation.Run

/-!
# The write buffer conserves messages

Every message that has been enqueued is in one place: stored, in the insert in flight, in the
buffer, or counted as dropped (`Pipeline.conserved`). The messages in flight and in the buffer are
in the order in which they were enqueued, also after a failed insert has been put back, so that the
cap drops the oldest of the buffer. When the server has been stopped, the messages before are stored
or counted.

A cancelled insert does not put its batch back. Stopping the server cancels the flusher, and its
insert with it (`Pipeline.batch_lost`). A failed insert puts the whole batch back, also the rows that
it has stored.

## Main results

* `Pipeline.Inv.trim`, `Pipeline.Inv.takeBatch`, `Pipeline.Inv.enqueue` — the operations.
* `Pipeline.Inv.step`, `Pipeline.dropsOldest_step` — one event.

Source: `backend/services/syslog.py`, lines 686–783, 816–829 and 1191–1220.
-/

namespace Nodeglow.Syslog

namespace Pipeline

variable {μ : Type} {c : BufferConfig μ} {w w' : Pipeline μ} {f : Flusher}

/-- The invariant. -/
structure Inv (w : Pipeline μ) : Prop where
  places : w.places.Perm w.enqueued
  seqs : w.enqueued.map Entry.seq = List.range w.enqueued.length
  sorted : (w.inFlight ++ w.buffer).Pairwise fun e e' => e.seq < e'.seq
  stoppedAt : ∀ n, w.stoppedAt = some n →
    n ≤ w.enqueued.length ∧ ∀ e ∈ w.inFlight ++ w.buffer, n ≤ e.seq
  final : w.InsertsFinally → w.buffer = []

/-- What is counted as dropped by a step is older than what is buffered after it. -/
def DropsOldest (w w' : Pipeline μ) : Prop :=
  ∃ dropped, w'.overflow = w.overflow ++ dropped ∧
    ∀ d ∈ dropped, ∀ e ∈ w'.buffer, d.seq < e.seq

theorem inv_init : (init : Pipeline μ).Inv where
  places := .nil
  seqs := rfl
  sorted := .nil
  stoppedAt := nofun
  final _ := rfl

/-! ### Places -/

theorem coe_places (w : Pipeline μ) : (w.places : Multiset (Entry μ)) =
    w.stored + w.inFlight + w.buffer + w.overflow + w.noTenant := by
  simp [places]

theorem inFlight_eq_nil (h : w.inserting = none) : w.inFlight = [] := by
  rw [inFlight, h]
  rfl

theorem inFlight_eq {i : Insert μ} (h : w.inserting = some i) : w.inFlight = i.batch := by
  rw [inFlight, h]
  rfl

/-- What is in flight or buffered has been enqueued. -/
theorem Inv.mem_enqueued (h : w.Inv) {e : Entry μ} (he : e ∈ w.inFlight ++ w.buffer) :
    e ∈ w.enqueued := by
  refine h.places.mem_iff.mp ?_
  simp only [Pipeline.places, List.mem_append] at he ⊢
  tauto

/-- Messages are numbered in the order in which they are enqueued. -/
theorem Inv.seq_lt (h : w.Inv) {e : Entry μ} (he : e ∈ w.enqueued) :
    e.seq < w.enqueued.length := by
  have hmem := List.mem_map_of_mem (f := Entry.seq) he
  rw [h.seqs] at hmem
  exact List.mem_range.mp hmem

theorem Inv.nodup (h : w.Inv) : w.enqueued.Nodup :=
  List.Nodup.of_map Entry.seq (h.seqs ▸ List.nodup_range)

/-! ### The operations -/

/-- **The cap** moves the oldest messages of the buffer to those counted. -/
theorem Inv.trim (h : w.Inv) : (w.trim c).Inv where
  places := by
    refine List.Perm.trans ?_ h.places
    have hsplit : (w.buffer : Multiset (Entry μ)) =
        (w.buffer.take (w.buffer.length - c.bufferMax) : Multiset (Entry μ)) +
          (w.buffer.drop (w.buffer.length - c.bufferMax) : Multiset (Entry μ)) := by
      rw [Multiset.coe_add, List.take_append_drop]
    rw [← Multiset.coe_eq_coe, coe_places, coe_places, hsplit]
    change _ + (w.inFlight : Multiset (Entry μ)) + _ +
      ((w.overflow ++ w.buffer.take _ : List (Entry μ)) : Multiset (Entry μ)) + _ = _
    rw [← Multiset.coe_add]
    change (w.stored : Multiset (Entry μ)) + _ + (w.buffer.drop _ : Multiset (Entry μ)) + _ +
      (w.noTenant : Multiset (Entry μ)) = _
    abel
  seqs := h.seqs
  sorted := h.sorted.sublist ((List.Sublist.refl _).append (List.drop_sublist _ _))
  stoppedAt n hn := ⟨(h.stoppedAt n hn).1, fun e he => (h.stoppedAt n hn).2 e
    (((List.Sublist.refl _).append (List.drop_sublist _ _)).subset he)⟩
  final hfinal := by
    change w.buffer.drop _ = []
    rw [h.final hfinal, List.drop_nil]

theorem dropsOldest_trim (hsorted : w.buffer.Pairwise fun e e' => e.seq < e'.seq) :
    DropsOldest w (w.trim c) := by
  refine ⟨_, rfl, ?_⟩
  rw [← List.take_append_drop (w.buffer.length - c.bufferMax) w.buffer,
    List.pairwise_append] at hsorted
  exact hsorted.2.2

theorem DropsOldest.of_eq (h : w'.overflow = w.overflow) : DropsOldest w w' :=
  ⟨[], by rw [h, List.append_nil], nofun⟩

theorem DropsOldest.mono {w'' : Pipeline μ} (h : DropsOldest w w')
    (hoverflow : w''.overflow = w'.overflow) (hbuffer : ∀ e ∈ w''.buffer, e ∈ w'.buffer) :
    DropsOldest w w'' := by
  obtain ⟨dropped, heq, holdest⟩ := h
  exact ⟨dropped, hoverflow.trans heq, fun d hd e he => holdest d hd e (hbuffer e he)⟩

/-- A flush returns; the final one leaves nothing. -/
theorem Inv.returned (h : w.Inv) (hf : f = .final → w.inserting = none ∧ w.buffer = []) :
    (w.returned f).Inv := by
  unfold Pipeline.returned
  split_ifs with hfinal
  · obtain ⟨hinserting, hbuffer⟩ := hf hfinal
    refine ⟨h.places, h.seqs, h.sorted, fun n hn => ?_, h.final⟩
    obtain rfl := Option.some.inj hn
    refine ⟨le_rfl, fun e he => ?_⟩
    change e ∈ w.inFlight ++ w.buffer at he
    rw [inFlight_eq_nil hinserting, hbuffer] at he
    cases he
  · exact h

/-- **The buffer** is taken as the next batch. -/
theorem Inv.takeBatch (h : w.Inv) (hinserting : w.inserting = none) : (w.takeBatch f).Inv := by
  unfold Pipeline.takeBatch
  split_ifs with hbuffer
  · exact h.returned fun _ => ⟨hinserting, hbuffer⟩
  · have hflight := inFlight_eq_nil hinserting
    refine ⟨?_, h.seqs, ?_, fun n hn => ?_, fun _ => rfl⟩
    · refine List.Perm.trans (List.Perm.of_eq ?_) h.places
      change w.stored ++ w.buffer ++ [] ++ w.overflow ++ w.noTenant = _
      rw [Pipeline.places, hflight, List.append_nil, List.append_nil]
    · have hsorted := h.sorted
      rw [hflight] at hsorted
      change (w.buffer ++ []).Pairwise _
      rw [List.append_nil]
      exact hsorted
    · obtain ⟨hle, hall⟩ := h.stoppedAt n hn
      rw [hflight] at hall
      refine ⟨hle, fun e he => hall e ?_⟩
      change e ∈ w.buffer ++ [] at he
      rwa [List.append_nil] at he

/-- The tasks that wait, and the phase of the server, do not matter. -/
theorem Inv.setTasks (h : w.Inv) (waiting : List Flusher) (phase : ServerPhase) :
    { w with waiting := waiting, phase := phase : Pipeline μ }.Inv :=
  ⟨h.places, h.seqs, h.sorted, h.stoppedAt, h.final⟩

theorem Inv.flushBuffer (h : w.Inv) : (w.flushBuffer f).Inv := by
  unfold Pipeline.flushBuffer
  split_ifs with hlock
  · exact h.takeBatch (Option.isNone_iff_eq_none.mp hlock.1)
  · exact h.setTasks _ w.phase

theorem overflow_flushBuffer (w : Pipeline μ) (f : Flusher) :
    (w.flushBuffer f).overflow = w.overflow := by
  unfold Pipeline.flushBuffer Pipeline.takeBatch Pipeline.returned
  split_ifs <;> rfl

theorem mem_buffer_flushBuffer {e : Entry μ} (he : e ∈ (w.flushBuffer f).buffer) :
    e ∈ w.buffer := by
  unfold Pipeline.flushBuffer Pipeline.takeBatch Pipeline.returned at he
  split_ifs at he
  · exact he
  · exact he
  · cases he
  · exact he

/-! ### Events -/

/-- A message is appended to the buffer. -/
theorem Inv.append (h : w.Inv) (hnot : ¬ w.InsertsFinally) (m : μ) :
    { w with
      enqueued := w.enqueued ++ [⟨w.enqueued.length, m⟩]
      buffer := w.buffer ++ [⟨w.enqueued.length, m⟩] : Pipeline μ }.Inv where
  places := by
    have hplaces := Multiset.coe_eq_coe.mpr h.places
    rw [coe_places] at hplaces
    rw [← Multiset.coe_eq_coe, coe_places]
    change (w.stored : Multiset (Entry μ)) + w.inFlight +
      ((w.buffer ++ [⟨w.enqueued.length, m⟩] : List (Entry μ)) : Multiset (Entry μ)) + w.overflow +
        w.noTenant =
      ((w.enqueued ++ [⟨w.enqueued.length, m⟩] : List (Entry μ)) : Multiset (Entry μ))
    rw [← Multiset.coe_add, ← Multiset.coe_add, ← hplaces]
    abel
  seqs := by
    rw [List.map_append, List.length_append, h.seqs, List.length_singleton, List.range_succ]
    rfl
  sorted := by
    change (w.inFlight ++ (w.buffer ++ [_])).Pairwise _
    rw [← List.append_assoc, List.pairwise_append]
    refine ⟨h.sorted, List.pairwise_singleton _ _, fun e he e' he' => ?_⟩
    obtain rfl := List.mem_singleton.mp he'
    exact h.seq_lt (h.mem_enqueued he)
  stoppedAt n hn := by
    obtain ⟨hle, hall⟩ := h.stoppedAt n hn
    refine ⟨hle.trans (by simp), fun e he => ?_⟩
    change e ∈ w.inFlight ++ (w.buffer ++ [_]) at he
    rw [← List.append_assoc] at he
    rcases List.mem_append.mp he with he | he
    · exact hall e he
    · obtain rfl := List.mem_singleton.mp he
      exact hle
  final hfinal := absurd hfinal hnot

/-- A message without a tenant is counted. -/
theorem Inv.count (h : w.Inv) (m : μ) :
    { w with
      enqueued := w.enqueued ++ [⟨w.enqueued.length, m⟩]
      noTenant := w.noTenant ++ [⟨w.enqueued.length, m⟩] : Pipeline μ }.Inv where
  places := by
    refine List.Perm.trans (List.Perm.of_eq ?_) (h.places.append_right [⟨w.enqueued.length, m⟩])
    change w.stored ++ w.inFlight ++ w.buffer ++ w.overflow ++ (w.noTenant ++ [_]) = _
    rw [← List.append_assoc]
    rfl
  seqs := by
    rw [List.map_append, List.length_append, h.seqs, List.length_singleton, List.range_succ]
    rfl
  sorted := h.sorted
  stoppedAt n hn := ⟨(h.stoppedAt n hn).1.trans (by simp), (h.stoppedAt n hn).2⟩
  final := h.final

theorem Inv.enqueue (h : w.Inv) {m : μ} (hguard : w.Undisturbed c (.enqueue m)) :
    (w.enqueue c m).Inv := by
  unfold Pipeline.enqueue
  cases htenant : c.tenant m with
  | none => exact h.count m
  | some tenant =>
    have hnot : ¬ w.InsertsFinally := hguard (by rw [htenant]; exact Option.some_ne_none _)
    have htrim := (h.append hnot m).trim (c := c)
    simp only
    split_ifs
    · exact htrim.flushBuffer
    · exact htrim

theorem dropsOldest_enqueue (h : w.Inv) (c : BufferConfig μ) (m : μ) :
    DropsOldest w (w.enqueue c m) := by
  unfold Pipeline.enqueue
  cases htenant : c.tenant m with
  | none => exact .of_eq rfl
  | some tenant =>
    have hsorted : (w.buffer ++ [(⟨w.enqueued.length, m⟩ : Entry μ)]).Pairwise
        fun e e' => e.seq < e'.seq := by
      rw [List.pairwise_append]
      refine ⟨(List.pairwise_append.mp h.sorted).2.1, List.pairwise_singleton _ _,
        fun e he e' he' => ?_⟩
      obtain rfl := List.mem_singleton.mp he'
      exact h.seq_lt (h.mem_enqueued (List.mem_append_right _ he))
    obtain ⟨dropped, heq, holdest⟩ := dropsOldest_trim (c := c)
      (w := { w with
        enqueued := w.enqueued ++ [⟨w.enqueued.length, m⟩]
        buffer := w.buffer ++ [⟨w.enqueued.length, m⟩] }) hsorted
    have htrim : DropsOldest w _ := ⟨dropped, heq, holdest⟩
    simp only
    split_ifs
    · exact htrim.mono (overflow_flushBuffer _ _) fun _ => mem_buffer_flushBuffer
    · exact htrim

/-- **A batch is stored.** -/
theorem Inv.store (h : w.Inv) {i : Insert μ} (hi : w.inserting = some i) :
    { w with inserting := none, stored := w.stored ++ i.batch : Pipeline μ }.Inv where
  places := by
    refine List.Perm.trans (List.Perm.of_eq ?_) h.places
    rw [Pipeline.places, Pipeline.places, inFlight_eq hi, inFlight_eq_nil rfl, List.append_nil]
  seqs := h.seqs
  sorted := by
    rw [inFlight_eq_nil rfl]
    exact (List.pairwise_append.mp h.sorted).2.1
  stoppedAt n hn := by
    rw [inFlight_eq_nil rfl]
    exact ⟨(h.stoppedAt n hn).1, fun e he => (h.stoppedAt n hn).2 e (List.mem_append_right _ he)⟩
  final hfinal := by
    obtain ⟨j, hj, -⟩ := hfinal
    cases hj

/-- **A batch is put back** in front of the buffer. -/
theorem Inv.putBack (h : w.Inv) {i : Insert μ} (hi : w.inserting = some i) :
    { w with inserting := none, buffer := i.batch ++ w.buffer : Pipeline μ }.Inv where
  places := by
    refine List.Perm.trans (List.Perm.of_eq ?_) h.places
    rw [Pipeline.places, Pipeline.places, inFlight_eq hi, inFlight_eq_nil rfl, List.append_nil,
      ← List.append_assoc]
  seqs := h.seqs
  sorted := by
    rw [inFlight_eq_nil rfl, ← inFlight_eq hi]
    exact h.sorted
  stoppedAt := by
    rw [inFlight_eq_nil rfl, ← inFlight_eq hi]
    exact h.stoppedAt
  final hfinal := by
    obtain ⟨j, hj, -⟩ := hfinal
    cases hj

/-- A flush that is cancelled is marked as such. -/
theorem Inv.stop (h : w.Inv) :
    { w with
      phase := .stopping
      waiting := w.waiting.filter (· ≠ .loop)
      inserting := w.inserting.map fun i =>
        if i.caller = .loop then { i with cancelled := true } else i : Pipeline μ }.Inv := by
  have hbatch : (fun i : Insert μ =>
      (if i.caller = .loop then { i with cancelled := true } else i).batch) = Insert.batch := by
    funext i
    split_ifs <;> rfl
  have hflight : ((w.inserting.map fun i =>
      if i.caller = .loop then { i with cancelled := true } else i).map Insert.batch).getD [] =
        w.inFlight := by
    rw [Option.map_map]
    exact congrArg (fun g => (w.inserting.map g).getD []) hbatch
  refine ⟨?_, h.seqs, ?_, fun n hn => ?_, fun hfinal => h.final ?_⟩
  · change (w.stored ++ _ ++ w.buffer ++ w.overflow ++ w.noTenant).Perm _
    rw [inFlight, hflight]
    exact h.places
  · rw [inFlight, hflight]
    exact h.sorted
  · rw [inFlight, hflight]
    exact h.stoppedAt n hn
  · obtain ⟨i, hi, hcaller⟩ := hfinal
    obtain ⟨j, hj, rfl⟩ := Option.map_eq_some_iff.mp hi
    refine ⟨j, hj, ?_⟩
    split_ifs at hcaller
    · exact hcaller
    · exact hcaller

/-- **One event** keeps the invariant. -/
theorem Inv.step (h : w.Inv) {e : PipelineEvent μ} (hguard : w.Undisturbed c e)
    (hstep : w.step c e = some w') : w'.Inv := by
  cases e with
  | enqueue m =>
    obtain rfl := Option.some.inj hstep
    exact h.enqueue hguard
  | tick =>
    obtain ⟨-, rfl⟩ := made_of_guard hstep
    exact h.flushBuffer
  | grant =>
    simp only [Pipeline.step] at hstep
    split at hstep <;> try contradiction
    next f rest hinserting _ =>
      obtain rfl := Option.some.inj hstep
      exact (h.setTasks rest w.phase).takeBatch hinserting
  | succeed =>
    simp only [Pipeline.step] at hstep
    split at hstep <;> try contradiction
    next f batch hi =>
      obtain rfl := Option.some.inj hstep
      exact (h.store hi).returned fun hf => ⟨rfl, h.final ⟨_, hi, hf⟩⟩
  | fail stored =>
    obtain ⟨hfinal, hnone⟩ := hguard
    simp only [Pipeline.step] at hstep
    split at hstep <;> try contradiction
    next f batch hi =>
      rw [inFlight_eq hi] at hnone
      rw [List.filter_eq_nil_iff.mpr fun e he => by simp [hnone e he], List.append_nil] at hstep
      obtain rfl := Option.some.inj hstep
      exact (h.putBack hi).trim.returned fun hf => absurd ⟨_, hi, hf⟩ hfinal
  | cancelInsert stored =>
    simp only [Pipeline.step] at hstep
    split at hstep <;> try contradiction
    next f batch cancelled hi =>
      have hall : ∀ e ∈ batch, stored e.seq = true := fun e he => hguard e (inFlight_eq hi ▸ he)
      rw [List.filter_eq_self.mpr hall] at hstep
      obtain ⟨-, rfl⟩ := made_of_guard_not hstep
      exact (h.store hi).setTasks w.waiting _
  | cancelWait f =>
    obtain ⟨-, rfl⟩ := made_of_guard hstep
    exact h.setTasks _ _
  | start =>
    obtain ⟨-, rfl⟩ := made_of_guard hstep
    exact h.setTasks w.waiting _
  | stop =>
    obtain ⟨-, rfl⟩ := made_of_guard hstep
    exact h.stop
  | flush =>
    obtain ⟨-, rfl⟩ := made_of_guard hstep
    exact (h.setTasks w.waiting .flushing).flushBuffer

/-- **Every step** that counts messages as dropped for the cap takes the oldest of the buffer. -/
theorem dropsOldest_step (h : w.Inv) {e : PipelineEvent μ} (hstep : w.step c e = some w') :
    DropsOldest w w' := by
  have hreturned (w' : Pipeline μ) (f : Flusher) : (w'.returned f).overflow = w'.overflow ∧
      (w'.returned f).buffer = w'.buffer := by
    unfold Pipeline.returned
    split_ifs <;> exact ⟨rfl, rfl⟩
  cases e with
  | enqueue m =>
    obtain rfl := Option.some.inj hstep
    exact dropsOldest_enqueue h c m
  | tick =>
    obtain ⟨-, rfl⟩ := made_of_guard hstep
    exact .of_eq (overflow_flushBuffer w .loop)
  | grant =>
    simp only [Pipeline.step] at hstep
    split at hstep <;> try contradiction
    obtain rfl := Option.some.inj hstep
    refine .of_eq ?_
    unfold Pipeline.takeBatch Pipeline.returned
    split_ifs <;> rfl
  | succeed =>
    simp only [Pipeline.step] at hstep
    split at hstep <;> try contradiction
    obtain rfl := Option.some.inj hstep
    exact .of_eq (hreturned _ _).1
  | fail stored =>
    simp only [Pipeline.step] at hstep
    split at hstep <;> try contradiction
    next f batch hi =>
      obtain rfl := Option.some.inj hstep
      have hsorted := (h.putBack hi).sorted
      rw [inFlight_eq_nil rfl, List.nil_append] at hsorted
      obtain ⟨dropped, heq, holdest⟩ := dropsOldest_trim (c := c)
        (w := { w with
          inserting := none
          buffer := batch ++ w.buffer
          stored := w.stored ++ batch.filter fun e : Entry μ => stored e.seq }) hsorted
      refine ⟨dropped, (hreturned _ f).1.trans heq, ?_⟩
      rw [(hreturned _ f).2]
      exact holdest
  | cancelInsert stored =>
    simp only [Pipeline.step] at hstep
    split at hstep <;> try contradiction
    obtain ⟨-, rfl⟩ := made_of_guard_not hstep
    exact .of_eq rfl
  | cancelWait f | start | stop =>
    obtain ⟨-, rfl⟩ := made_of_guard hstep
    exact .of_eq rfl
  | flush =>
    obtain ⟨-, rfl⟩ := made_of_guard hstep
    exact .of_eq (overflow_flushBuffer _ .final)

/-- **The write buffer conserves messages**: each is in one place, once; those enqueued before the
server was stopped are stored or counted; and the cap drops the oldest of the buffer. -/
theorem conserved (c : BufferConfig μ) {l : List (PipelineEvent μ)}
    (hrun : Run (Guarded (Undisturbed c) (Step c)) (init : Pipeline μ) l w) :
    w.places.Nodup ∧ (∀ e, e ∈ w.places ↔ e ∈ w.enqueued) ∧
      (∀ n, w.stoppedAt = some n → ∀ e ∈ w.enqueued, e.seq < n →
        e ∈ w.stored ∨ e ∈ w.overflow ∨ e ∈ w.noTenant) ∧
      ∀ e w', w.step c e = some w' → ∃ dropped, w'.overflow = w.overflow ++ dropped ∧
        ∀ d ∈ dropped, ∀ e ∈ w'.buffer, d.seq < e.seq := by
  have h : w.Inv := hrun.invariant (fun _ _ _ h hstep => h.step hstep.1 hstep.2) inv_init
  refine ⟨h.places.nodup_iff.mpr h.nodup, fun e => h.places.mem_iff, fun n hn e he hlt => ?_,
    fun e w' hstep => dropsOldest_step h hstep⟩
  have hplace := h.places.mem_iff.mpr he
  have hnot : e ∉ w.inFlight ++ w.buffer := fun hmem =>
    absurd ((h.stoppedAt n hn).2 e hmem) (not_le.mpr hlt)
  simp only [Pipeline.places, List.mem_append, not_or] at hplace hnot
  tauto

/-! ### Samples -/

instance (w : Pipeline μ) : Decidable w.InsertsFinally :=
  decidable_of_iff (w.inserting.any fun i => i.caller = .final) (by
    unfold InsertsFinally
    cases w.inserting <;> simp)

instance (c : BufferConfig μ) (w : Pipeline μ) (e : PipelineEvent μ) :
    Decidable (w.Undisturbed c e) := by
  unfold Undisturbed
  split <;> infer_instance

/-- Batches of two, and room for three; upper-case messages have a tenant. -/
def sampleConfig : BufferConfig Char where
  bufferSize := 2
  bufferMax := 3
  tenant m := if m.isUpper then some 1 else none

/-- A failed batch is put back and the cap drops its first message; the server is stopped. -/
def sampleRetried : List (PipelineEvent Char) :=
  [.start, .enqueue 'A', .enqueue 'x', .enqueue 'B', .tick, .enqueue 'C', .enqueue 'D',
    .fail fun _ => false, .stop, .flush, .succeed]

theorem conserved_sampleRetried : ∃ w : Pipeline Char,
    Run (Guarded (Undisturbed sampleConfig) (Step sampleConfig)) init sampleRetried w ∧
      w.overflow = [⟨0, 'A'⟩] ∧ w.stored = [⟨2, 'B'⟩, ⟨3, 'C'⟩, ⟨4, 'D'⟩] ∧ w.places.Nodup := by
  have hview : (sampleRetried.foldlM (fun (w : Pipeline Char) e =>
      if w.Undisturbed sampleConfig e then w.step sampleConfig e else none) init).map
        (fun w => (w.overflow, w.stored)) =
          some ([⟨0, 'A'⟩], [⟨2, 'B'⟩, ⟨3, 'C'⟩, ⟨4, 'D'⟩]) := by
    decide +kernel
  obtain ⟨w, hw, heq⟩ := Option.map_eq_some_iff.mp hview
  have hrun := Run.guarded_of_foldlM hw
  obtain ⟨hoverflow, hstored⟩ := Prod.mk.inj heq
  exact ⟨w, hrun, hoverflow, hstored, (conserved sampleConfig hrun).1⟩

/-- The server is stopped while a batch is being inserted. -/
def sampleStopped : List (PipelineEvent Char) :=
  [.start, .enqueue 'A', .tick, .stop, .cancelInsert fun _ => false, .flush]

/-- A message is nowhere. -/
theorem batch_lost :
    ¬∀ (μ : Type) (c : BufferConfig μ) (l : List (PipelineEvent μ)) (w : Pipeline μ),
      Run (Step c) init l w → ∀ e, e ∈ w.places ↔ e ∈ w.enqueued := by
  intro hall
  have hview : (sampleStopped.foldlM (fun (w : Pipeline Char) e => w.step sampleConfig e) init).map
      (fun w => (w.places, w.enqueued)) = some ([], [⟨0, 'A'⟩]) := by
    decide +kernel
  obtain ⟨w, hw, heq⟩ := Option.map_eq_some_iff.mp hview
  obtain ⟨hplaces, henqueued⟩ := Prod.mk.inj heq
  have hiff := hall Char sampleConfig _ w (Run.of_foldlM hw) ⟨0, 'A'⟩
  rw [hplaces, henqueued] at hiff
  exact absurd (hiff.mpr (List.mem_singleton_self _)) List.not_mem_nil

end Pipeline

end Nodeglow.Syslog
