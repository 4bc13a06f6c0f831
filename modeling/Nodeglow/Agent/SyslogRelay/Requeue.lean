import Nodeglow.Agent.SyslogRelay.Buffer

/-!
# What a requeued batch keeps

An undelivered batch goes back in front of the buffer from its newest entry to its oldest one. An
entry that does not fit is discarded, and the walk goes on: a smaller, older entry behind it is
still put in front. So the batch keeps its newest entries, and loses its oldest ones, unless one
entry is too large for the bytes that are left and an older one is not (`keepsNewest_iff`).

## Main results

* `RelayBuffer.keepsNewest_iff` — exactly when a batch keeps its newest entries.

Source: `agent/src/syslog_relay.rs`, lines 165–183.
-/

namespace Nodeglow.SyslogRelay.RelayBuffer

variable {ε : Type*} [HasSize ε] {b : RelayBuffer ε} {batch older newer : List ε} {e : ε}

/-- **The newest entries are kept**: the batch is parted, its older part is discarded and counted,
and its newer part stands before what was in the buffer. -/
def KeepsNewest (b : RelayBuffer ε) (batch : List ε) : Prop :=
  ∃ older newer, batch = older ++ newer ∧
    (b.requeueFront batch).1.entries = newer ++ b.entries ∧
    (b.requeueFront batch).2 = older.length

/-- Entries fit in front of the buffer. -/
def Room (b : RelayBuffer ε) (es : List ε) : Prop :=
  es = [] ∨ b.entries.length + es.length ≤ b.maxEntries ∧ b.bytes + totalSize es ≤ b.maxBytes

/-- The buffer with entries in front. -/
def withFront (b : RelayBuffer ε) (es : List ε) : RelayBuffer ε :=
  { b with entries := es ++ b.entries, bytes := b.bytes + totalSize es }

theorem fits_withFront_iff : (b.withFront newer).fits (size e) = true ↔ b.Room (e :: newer) := by
  rw [fits, Bool.and_eq_true, decide_eq_true_eq, decide_eq_true_eq, Room]
  simp only [withFront, List.length_append, List.cons_ne_nil, false_or, List.length_cons,
    totalSize_cons]
  omega

theorem Room.tail (h : b.Room (e :: newer)) : b.Room newer := by
  rw [Room, List.length_cons, totalSize_cons] at h
  obtain ⟨hlen, hbytes⟩ := h.resolve_left (List.cons_ne_nil _ _)
  exact .inr ⟨by omega, by omega⟩

/-! ### The walk through the batch -/

theorem requeueFront_cons (b : RelayBuffer ε) (e : ε) (batch : List ε) :
    b.requeueFront (e :: batch) =
      if (b.requeueFront batch).1.fits (size e) then
        ({ (b.requeueFront batch).1 with
            entries := e :: (b.requeueFront batch).1.entries
            bytes := (b.requeueFront batch).1.bytes + size e }, (b.requeueFront batch).2)
      else ((b.requeueFront batch).1, (b.requeueFront batch).2 + 1) := rfl

/-- The older part of a batch comes after the newer one. -/
theorem requeueFront_append (b : RelayBuffer ε) (older newer : List ε) :
    b.requeueFront (older ++ newer) =
      (((b.requeueFront newer).1.requeueFront older).1,
        (b.requeueFront newer).2 + ((b.requeueFront newer).1.requeueFront older).2) := by
  induction older with
  | nil => rfl
  | cons e older ih =>
    rw [List.cons_append, requeueFront_cons, ih, requeueFront_cons]
    split_ifs
    · rfl
    · rfl

/-- Entries that fit. -/
theorem requeueFront_of_room (h : b.Room newer) : b.requeueFront newer = (b.withFront newer, 0) := by
  induction newer with
  | nil => rfl
  | cons e newer ih =>
    rw [requeueFront_cons, ih h.tail, if_pos (fits_withFront_iff.mpr h)]
    simp only [withFront, List.cons_append, totalSize_cons, Nat.add_assoc, Nat.add_comm (size e)]

/-- Entries of which none fits. -/
theorem requeueFront_of_forall_not (h : ∀ x ∈ older, b.fits (size x) = false) :
    b.requeueFront older = (b, older.length) := by
  induction older with
  | nil => rfl
  | cons e older ih =>
    rw [requeueFront_cons, ih fun x hx => h x (List.mem_cons_of_mem e hx),
      if_neg (by simp [h e List.mem_cons_self])]
    rfl

/-- **Where one of the entries fits**, one that fits stands right before the buffer. -/
theorem exists_fits (h : ∃ x ∈ older, b.fits (size x) = true) :
    ∃ front x, (b.requeueFront older).1.entries = front ++ x :: b.entries ∧
      b.fits (size x) = true := by
  induction older with
  | nil =>
    obtain ⟨x, hx, -⟩ := h
    exact absurd hx List.not_mem_nil
  | cons e older ih =>
    rw [requeueFront_cons]
    by_cases hrest : ∃ x ∈ older, b.fits (size x) = true
    · obtain ⟨front, x, hentries, hx⟩ := ih hrest
      split_ifs
      · exact ⟨e :: front, x, by rw [hentries, List.cons_append], hx⟩
      · exact ⟨front, x, hentries, hx⟩
    · have hnone : ∀ x ∈ older, b.fits (size x) = false := fun x hx =>
        Bool.eq_false_iff.mpr fun hfits => hrest ⟨x, hx, hfits⟩
      have he : b.fits (size e) = true := by
        obtain ⟨x, hx, hfits⟩ := h
        rcases List.mem_cons.mp hx with rfl | hx
        · exact hfits
        · exact absurd ⟨x, hx, hfits⟩ hrest
      rw [requeueFront_of_forall_not hnone, if_pos he]
      exact ⟨[], e, rfl, he⟩

/-- A batch fits, or there is a newest entry that does not. -/
theorem exists_newest (b : RelayBuffer ε) (batch : List ε) : b.Room batch ∨
    ∃ older e newer, batch = older ++ e :: newer ∧ b.Room newer ∧ ¬b.Room (e :: newer) := by
  induction batch with
  | nil => exact .inl (.inl rfl)
  | cons e batch ih =>
    rcases ih with hroom | ⟨older, x, newer, rfl, hroom, hnot⟩
    · by_cases hcons : b.Room (e :: batch)
      · exact .inl hcons
      · exact .inr ⟨[], e, batch, rfl, hroom, hcons⟩
    · exact .inr ⟨e :: older, x, newer, rfl, hroom, hnot⟩

/-- The batch from its newest entry that does not fit. -/
theorem requeueFront_of_newest (hroom : b.Room newer) (hnot : ¬b.Room (e :: newer)) :
    b.requeueFront (older ++ e :: newer) =
      (((b.withFront newer).requeueFront older).1,
        1 + ((b.withFront newer).requeueFront older).2) := by
  have hfits : ¬(b.withFront newer).fits (size e) = true := fun h => hnot (fits_withFront_iff.mp h)
  rw [requeueFront_append, requeueFront_cons, requeueFront_of_room hroom, if_neg hfits]

/-- An older entry that is put in front in place of the one that does not fit. -/
theorem not_keepsNewest (hroom : b.Room newer) (hnot : ¬b.Room (e :: newer))
    (h : ∃ x ∈ older, b.Room (x :: newer)) : ¬b.KeepsNewest (older ++ e :: newer) := by
  rintro ⟨gone, kept, hbatch, hentries, -⟩
  obtain ⟨x, hx, hxroom⟩ := h
  obtain ⟨front, y, hfront, hy⟩ :=
    exists_fits (b := b.withFront newer) ⟨x, hx, fits_withFront_iff.mpr hxroom⟩
  rw [requeueFront_of_newest hroom hnot] at hentries
  -- What is kept ends with an entry that fits and the newer ones.
  have hkept : front ++ y :: newer = kept := by
    have heq : (front ++ y :: newer) ++ b.entries = kept ++ b.entries := by
      rw [← hentries, hfront, withFront]
      simp
    exact List.append_cancel_right heq
  have hends : y :: newer <:+ older ++ e :: newer :=
    ⟨gone ++ front, by rw [hbatch, ← hkept, List.append_assoc]⟩
  have hye : y :: newer = e :: newer :=
    (List.suffix_of_suffix_length_le hends ⟨older, rfl⟩ (by simp)).eq_of_length (by simp)
  obtain rfl := (List.cons.inj hye).1
  exact hnot (fits_withFront_iff.mp hy)

/-- **A batch keeps its newest entries** if and only if no entry that is older than the newest one
that does not fit would fit in its place. -/
theorem keepsNewest_iff (b : RelayBuffer ε) (batch : List ε) : b.KeepsNewest batch ↔
    ∀ older e newer, batch = older ++ e :: newer → b.Room newer → ¬b.Room (e :: newer) →
      ∀ x ∈ older, ¬b.Room (x :: newer) := by
  constructor
  · rintro hkeeps older e newer rfl hroom hnot x hx hxroom
    exact not_keepsNewest hroom hnot ⟨x, hx, hxroom⟩ hkeeps
  · intro h
    rcases exists_newest b batch with hroom | ⟨older, e, newer, rfl, hroom, hnot⟩
    · exact ⟨[], batch, rfl, by rw [requeueFront_of_room hroom]; rfl,
        by rw [requeueFront_of_room hroom]; rfl⟩
    · have hnone : ∀ x ∈ older, (b.withFront newer).fits (size x) = false := fun x hx =>
        Bool.eq_false_iff.mpr fun hfits =>
          h older e newer rfl hroom hnot x hx (fits_withFront_iff.mp hfits)
      have hrequeue : b.requeueFront (older ++ e :: newer) =
          (((b.withFront newer).requeueFront older).1,
            1 + ((b.withFront newer).requeueFront older).2) := requeueFront_of_newest hroom hnot
      rw [requeueFront_of_forall_not hnone] at hrequeue
      refine ⟨older ++ [e], newer, by simp, by rw [hrequeue]; rfl, ?_⟩
      rw [hrequeue, List.length_append, List.length_singleton, Nat.add_comm]

/-! ### A large entry among small ones -/

/-- A line without an address, of 64 bytes and its text. -/
def line (raw : String) : RelayEntry := ⟨raw, "", "", .udp⟩

/-- A buffer for 133 bytes, with two lines in it that fill it. -/
def filled : RelayBuffer RelayEntry := (((new 10 133).push (line "")).1.push (line "large")).1

/-- The buffer after both lines were taken and another one came. -/
def waiting : RelayBuffer RelayEntry := ((filled.takeBatch 10 1000).2.push (line "n")).1

/-- **The newer line is discarded** and the older one is kept. -/
theorem not_keepsNewest_sample : ¬waiting.KeepsNewest (filled.takeBatch 10 1000).1 := by
  have hbatch : (filled.takeBatch 10 1000).1 = [line ""] ++ line "large" :: [] := by decide
  rw [hbatch]
  refine not_keepsNewest (.inl rfl) (by unfold Room; decide) ⟨line "", List.mem_singleton_self _, ?_⟩
  unfold Room
  decide

end Nodeglow.SyslogRelay.RelayBuffer
