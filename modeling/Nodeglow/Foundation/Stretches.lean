import Mathlib.Data.List.Count
import Mathlib.Data.List.Nodup
import Mathlib.Order.Lattice

/-!
# One event for each stretch of time

Every time belongs to a slot, and is given the start of that slot. The times are cut into
*stretches* if the slot of a time is that of all times back to the start, and of no time before it.
Then the start is never later than the time, and never goes back.

A sender is evaluated again and again. It sends where the time is near the start of its slot and
nothing was sent since the start. On times that are cut into stretches it sends exactly once in each
slot in which it is evaluated near the start.

## Main definitions

* `Stretches`.
* `Occasion`, `sends` — the evaluations that send.

## Main results

* `Stretches.monotone` — the start does not go back.
* `Stretches.count_sends` — it sends once in each slot.
* `stretches_of_count_sends` — times in which it does are cut into stretches.
-/

namespace Nodeglow

variable {T α ι : Type*} [LinearOrder T] {slot : T → α} {start : T → T} {t u v : T}

/-- **The times are cut into stretches**: up to a time, its slot has begun exactly from its start
on. -/
def Stretches (slot : T → α) (start : T → T) : Prop :=
  ∀ u v, v ≤ u → (slot v = slot u ↔ start u ≤ v)

namespace Stretches

theorem start_le (h : Stretches slot start) (u : T) : start u ≤ u := (h u u le_rfl).mp rfl

/-- A slot has no gaps. -/
theorem between (h : Stretches slot start) (htu : t ≤ u) (huv : u ≤ v) (htv : slot t = slot v) :
    slot u = slot v :=
  (h v u huv).mpr (((h v t (htu.trans huv)).mp htv).trans htu)

/-- **The start does not go back.** -/
theorem monotone (h : Stretches slot start) : Monotone start := by
  intro u v huv
  by_cases hsame : slot u = slot v
  · have hle : start v ≤ u := (h v u huv).mp hsame
    have hstart : slot (start v) = slot v := (h v (start v) (h.start_le v)).mpr le_rfl
    exact (h u (start v) hle).mp (hstart.trans hsame.symm)
  · have hlt : u < start v := not_le.mp fun hle => hsame ((h v u huv).mpr hle)
    exact (h.start_le u).trans hlt.le

end Stretches

/-! ### Sending -/

/-- A time at which the sender is evaluated, and the time that is recorded if it sends. -/
structure Occasion (T : Type*) where
  now : T
  sent : T

/-- The evaluations that send, where `due` depends on the time that was recorded last. -/
def sends (due : Option T → T → Bool) : Option T → List (Occasion T) → List (Occasion T)
  | _, [] => []
  | last, e :: es =>
    if due last e.now then e :: sends due (some e.sent) es else sends due last es

/-- Evaluations one after the other: nothing is recorded before its evaluation or after the next
one, and no slot begins before it is recorded. -/
structure InOrder (slot : T → α) (es : List (Occasion T)) : Prop where
  increasing : es.Pairwise fun e e' => e.sent < e'.now
  now_le_sent : ∀ e ∈ es, e.now ≤ e.sent
  slot_sent : ∀ e ∈ es, slot e.sent = slot e.now

/-- It sends where the time is near the start, and nothing was recorded since the start. -/
def DueOnce (start : T → T) (near : T → Prop) (due : Option T → T → Bool) : Prop :=
  ∀ last now, due last now = true ↔ near now ∧ ∀ t ∈ last, t < start now

variable {near : T → Prop} {due : Option T → T → Bool} {last : Option T} {e : Occasion T}
  {es : List (Occasion T)}

theorem InOrder.tail (h : InOrder slot (e :: es)) : InOrder slot es :=
  ⟨(List.pairwise_cons.mp h.increasing).2,
    fun e' he' => h.now_le_sent e' (List.mem_cons_of_mem _ he'),
    fun e' he' => h.slot_sent e' (List.mem_cons_of_mem _ he')⟩

theorem InOrder.sent_lt (h : InOrder slot (e :: es)) {e' : Occasion T} (he' : e' ∈ es) :
    e.sent < e'.now :=
  (List.pairwise_cons.mp h.increasing).1 e' he'

omit [LinearOrder T] in
theorem mem_of_mem_sends (he : e ∈ sends due last es) : e ∈ es := by
  induction es generalizing last with
  | nil => exact he
  | cons a es ih =>
    rw [sends] at he
    split_ifs at he
    · rcases List.mem_cons.mp he with rfl | he
      · exact List.mem_cons_self
      · exact List.mem_cons_of_mem a (ih he)
    · exact List.mem_cons_of_mem a (ih he)

namespace Stretches

/-- It sends where nothing was recorded in the slot. -/
theorem due_iff (h : Stretches slot start) (hdue : DueOnce start near due)
    (hlast : ∀ t ∈ last, t ≤ u) : due last u = true ↔ near u ∧ ∀ t ∈ last, slot t ≠ slot u := by
  rw [hdue last u]
  refine and_congr_right fun _ => forall₂_congr fun t ht => ?_
  rw [ne_eq, h u t (hlast t ht), not_le]

/-- What was recorded last is not in the slot of a later evaluation that sends. -/
theorem slot_ne_of_mem_sends (h : Stretches slot start) (hdue : DueOnce start near due)
    (horder : InOrder slot es) (hlast : ∀ t ∈ last, ∀ e ∈ es, t ≤ e.now) :
    ∀ e ∈ sends due last es, ∀ t ∈ last, slot t ≠ slot e.now := by
  induction es with
  | nil => nofun
  | cons e es ih =>
    have hhead : ∀ t ∈ last, t ≤ e.now := fun t ht => hlast t ht e List.mem_cons_self
    intro e' he' t ht
    rw [sends] at he'
    split_ifs at he' with hsend
    · have hne := ((h.due_iff hdue hhead).mp hsend).2 t ht
      rcases List.mem_cons.mp he' with rfl | he'
      · exact hne
      · -- The slot of the evaluation in between is another one, and slots have no gaps.
        intro hsame
        have hle : e.now ≤ e'.now := (horder.now_le_sent e List.mem_cons_self).trans
          (horder.sent_lt (mem_of_mem_sends he')).le
        exact hne (hsame.trans (h.between (hhead t ht) hle hsame).symm)
    · exact ih horder.tail (fun t ht e he => hlast t ht e (List.mem_cons_of_mem _ he)) e' he' t ht

/-- **No slot is sent twice.** -/
theorem nodup_sends (h : Stretches slot start) (hdue : DueOnce start near due)
    (horder : InOrder slot es) (hlast : ∀ t ∈ last, ∀ e ∈ es, t ≤ e.now) :
    ((sends due last es).map fun e => slot e.now).Nodup := by
  induction es generalizing last with
  | nil => exact List.nodup_nil
  | cons e es ih =>
    rw [sends]
    split_ifs with hsend
    · have hsent : ∀ t ∈ some e.sent, ∀ e' ∈ es, t ≤ e'.now := by
        rintro _ ⟨⟩ e' he'
        exact (horder.sent_lt he').le
      refine List.nodup_cons.mpr ⟨fun hmem => ?_, ih horder.tail hsent⟩
      obtain ⟨e', he', hsame⟩ := List.mem_map.mp hmem
      have hslot := horder.slot_sent e List.mem_cons_self
      exact h.slot_ne_of_mem_sends hdue horder.tail hsent e' he' e.sent rfl
        (hslot.trans hsame.symm)
    · exact ih horder.tail fun t ht e he => hlast t ht e (List.mem_cons_of_mem _ he)

/-- A slot in which nothing was recorded is sent, if an evaluation is near its start. -/
theorem exists_mem_sends (h : Stretches slot start) (hdue : DueOnce start near due)
    (horder : InOrder slot es) (hlast : ∀ t ∈ last, ∀ e ∈ es, t ≤ e.now) (he : e ∈ es)
    (hnear : near e.now) (hnew : ∀ t ∈ last, slot t ≠ slot e.now) :
    ∃ e' ∈ sends due last es, slot e'.now = slot e.now := by
  induction es generalizing last with
  | nil => cases he
  | cons a es ih =>
    have hhead : ∀ t ∈ last, t ≤ a.now := fun t ht => hlast t ht a List.mem_cons_self
    rw [sends]
    split_ifs with hsend
    · by_cases hsame : slot a.now = slot e.now
      · exact ⟨a, List.mem_cons_self, hsame⟩
      · have hmem : e ∈ es := (List.mem_cons.mp he).resolve_left fun heq => hsame (heq ▸ rfl)
        have hsent : ∀ t ∈ some a.sent, ∀ e' ∈ es, t ≤ e'.now := by
          rintro _ ⟨⟩ e' he'
          exact (horder.sent_lt he').le
        obtain ⟨e', he', hslot⟩ := ih horder.tail hsent hmem fun t ht => by
          obtain rfl := Option.some.inj ht
          rwa [horder.slot_sent a List.mem_cons_self]
        exact ⟨e', List.mem_cons_of_mem a he', hslot⟩
    · have hmem : e ∈ es := by
        refine (List.mem_cons.mp he).resolve_left fun heq => hsend ?_
        subst heq
        exact (h.due_iff hdue hhead).mpr ⟨hnear, hnew⟩
      exact ih horder.tail (fun t ht e he => hlast t ht e (List.mem_cons_of_mem _ he)) hmem hnew

/-- **It sends exactly once in each slot** in which it is evaluated near the start. -/
theorem count_sends [DecidableEq α] (h : Stretches slot start) (hdue : DueOnce start near due)
    (horder : InOrder slot es) (he : e ∈ es) (hnear : near e.now) :
    ((sends due none es).map fun e => slot e.now).count (slot e.now) = 1 := by
  have hnone : ∀ t ∈ (none : Option T), ∀ e ∈ es, t ≤ e.now :=
    fun t ht => absurd ht (Option.not_mem_none t)
  obtain ⟨e', he', hslot⟩ := h.exists_mem_sends hdue horder hnone he hnear
    fun t ht => absurd ht (Option.not_mem_none t)
  exact List.count_eq_one_of_mem (h.nodup_sends hdue horder hnone)
    (List.mem_map.mpr ⟨e', he', hslot⟩)

end Stretches

/-- **Times in which it sends exactly once in each slot** are cut into stretches. It is enough that
two evaluations near the start can be had, whatever their times. -/
theorem stretches_of_count_sends [DecidableEq α] {near : ι → T → Prop}
    {due : ι → Option T → T → Bool} (hdue : ∀ i, DueOnce start (near i) (due i))
    (hnear : ∀ u v, ∃ i, near i u ∧ near i v) (hstart : ∀ u, start u ≤ u)
    (hcount : ∀ i es, InOrder slot es → ∀ e ∈ es, near i e.now →
      ((sends (due i) none es).map fun e => slot e.now).count (slot e.now) = 1) :
    Stretches slot start := by
  intro u v hvu
  rcases hvu.eq_or_lt with rfl | hlt
  · exact ⟨fun _ => hstart v, fun _ => rfl⟩
  obtain ⟨i, hu, hv⟩ := hnear u v
  have horder : InOrder slot [⟨v, v⟩, ⟨u, u⟩] := ⟨by simpa using hlt, by simp, by simp⟩
  have honce := hcount i _ horder ⟨u, u⟩ (by simp) hu
  have hfirst : due i none v = true := (hdue i none v).mpr ⟨hv, nofun⟩
  have hsecond : due i (some v) u = true ↔ v < start u := by
    rw [hdue i (some v) u]
    simp [hu]
  by_cases hsend : due i (some v) u = true
  · -- Both send, so they are in different slots.
    rw [sends, if_pos hfirst, sends, if_pos hsend, sends] at honce
    have hne : slot v ≠ slot u := by
      intro hsame
      simp [hsame] at honce
    exact iff_of_false hne (not_le.mpr (hsecond.mp hsend))
  · rw [sends, if_pos hfirst, sends, if_neg hsend, sends] at honce
    have hsame : slot v = slot u := by
      by_contra hne
      simp [hne] at honce
    exact iff_of_true hsame (not_lt.mp fun hlt => hsend (hsecond.mpr hlt))

end Nodeglow
