import Nodeglow.Foundation.Streak

/-!
# A latch with two thresholds

A latch holds a flag that is set after a number of failures in a row and cleared after a number of
passes in a row. What was counted can be forgotten, with the flag or without it.

The history of a latch is the list of what it has counted and forgotten, with the latest first. Its
two counters are the streaks of that history, and neither of them reaches its threshold while the
flag says otherwise (`Latch.Tracks`). So the flag only changes at the end of a streak, or where it
is cleared.

## Main definitions

* `Latch`, `Latch.count`, `Latch.settle`, `Latch.forget`.
* `Latch.Mark`, `Latch.Tracks` — the history of a latch.

## Main results

* `Latch.Tracks.count`, `Latch.Tracks.idle`, `Latch.Tracks.forget` — what keeps the invariant.
* `Latch.Tracks.set`, `Latch.Tracks.clear` — when the flag changes.
-/

namespace Nodeglow

/-- A flag, and the failures and passes in a row. -/
@[ext]
structure Latch where
  flag : Bool
  failures : ℕ
  passes : ℕ
  deriving DecidableEq, Repr

namespace Latch

/-- Count a failure or a pass. -/
def count (l : Latch) (failed : Bool) : Latch :=
  if failed then { l with failures := l.failures + 1, passes := 0 }
  else { l with failures := 0, passes := l.passes + 1 }

/-- Set the flag after `m` failures, and clear it after `n` passes. -/
def settle (m n : ℕ) (l : Latch) : Latch :=
  if !l.flag && m ≤ l.failures then { l with flag := true }
  else if l.flag && n ≤ l.passes then { l with flag := false }
  else l

/-- Forget what was counted. -/
def forget (l : Latch) : Latch := { l with failures := 0, passes := 0 }

/-- An entry of the history. -/
inductive Mark
  | failure
  | pass
  | forgotten
  deriving DecidableEq, Repr

/-- The entry of what is counted. -/
def mark (failed : Bool) : Mark := if failed then .failure else .pass

/-- The failures in a row at the end of a history. -/
def failureStreak (past : List Mark) : ℕ := streak (· = .failure) past

/-- The passes in a row at the end of a history. -/
def passStreak (past : List Mark) : ℕ := streak (· = .pass) past

/-- **The counters are the streaks of the history**, and do not call for another flag. -/
structure Tracks (m n : ℕ) (l : Latch) (past : List Mark) : Prop where
  failures : l.failures = failureStreak past
  passes : l.passes = passStreak past
  failures_lt : l.flag = false → l.failures < m
  passes_lt : l.flag = true → l.passes < n

variable {m n : ℕ} {l : Latch} {past : List Mark} {failed : Bool}

theorem count_failures :
    (l.count failed).failures = if failed then l.failures + 1 else 0 := by
  cases failed <;> rfl

theorem count_passes : (l.count failed).passes = if failed then 0 else l.passes + 1 := by
  cases failed <;> rfl

@[simp] theorem count_flag : (l.count failed).flag = l.flag := by
  cases failed <;> rfl

@[simp] theorem settle_failures : (l.settle m n).failures = l.failures := by
  unfold settle
  split_ifs <;> rfl

@[simp] theorem settle_passes : (l.settle m n).passes = l.passes := by
  unfold settle
  split_ifs <;> rfl

/-- **The flag after settling.** -/
theorem settle_flag : (l.settle m n).flag =
    if l.flag = false ∧ m ≤ l.failures then true
    else if l.flag = true ∧ n ≤ l.passes then false
    else l.flag := by
  unfold settle
  rcases l with ⟨_ | _, failures, passes⟩
  · by_cases hm : m ≤ failures <;> simp [hm]
  · by_cases hn : n ≤ passes <;> simp [hn]

theorem failureStreak_mark :
    failureStreak (mark failed :: past) = if failed then failureStreak past + 1 else 0 := by
  cases failed <;> exact streak_cons ..

theorem passStreak_mark :
    passStreak (mark failed :: past) = if failed then 0 else passStreak past + 1 := by
  cases failed <;> exact streak_cons ..

namespace Tracks

/-- Nothing is counted, and the flag is as it is. -/
theorem start (hm : 0 < m) (hn : 0 < n) (flag : Bool) : Tracks m n ⟨flag, 0, 0⟩ [] :=
  ⟨rfl, rfl, fun _ => hm, fun _ => hn⟩

/-- **One more outcome** is counted. -/
theorem count (h : Tracks m n l past) (hm : 0 < m) (hn : 0 < n) (failed : Bool) :
    Tracks m n ((l.count failed).settle m n) (mark failed :: past) := by
  refine ⟨?_, ?_, fun hflag => ?_, fun hflag => ?_⟩
  · rw [settle_failures, count_failures, failureStreak_mark, h.failures]
  · rw [settle_passes, count_passes, passStreak_mark, h.passes]
  · rw [settle_failures]
    by_contra hge
    rw [settle_flag, count_flag] at hflag
    cases hl : l.flag with
    | false => simp [hl, Nat.not_lt.mp hge] at hflag
    | true =>
      -- The flag is cleared after a pass, which ends the failures.
      cases failed with
      | false => exact hge hm
      | true =>
        have hnot : ¬n ≤ (l.count true).passes := by
          rw [count_passes, if_pos rfl]
          exact Nat.not_le.mpr hn
        simp [hl, hnot] at hflag
  · rw [settle_passes]
    by_contra hge
    rw [settle_flag, count_flag] at hflag
    cases hl : l.flag with
    | true => simp [hl, Nat.not_lt.mp hge] at hflag
    | false =>
      -- The flag is set after a failure, which ends the passes.
      cases failed with
      | true => exact hge hn
      | false =>
        have hnot : ¬m ≤ (l.count false).failures := by
          rw [count_failures, if_neg Bool.false_ne_true]
          exact Nat.not_le.mpr hm
        simp [hl, hnot] at hflag

/-- Where nothing is counted, the flag stays. -/
theorem idle (h : Tracks m n l past) : l.settle m n = l := by
  unfold settle
  cases hflag : l.flag with
  | false =>
    have hlt := Nat.not_le.mpr (h.failures_lt hflag)
    simp [hlt]
  | true =>
    have hlt := Nat.not_le.mpr (h.passes_lt hflag)
    simp [hlt]

/-- Forgetting, whatever becomes of the flag. -/
theorem forget (hm : 0 < m) (hn : 0 < n) (flag : Bool) (past : List Mark) :
    Tracks m n { l.forget with flag := flag } (.forgotten :: past) :=
  ⟨rfl, rfl, fun _ => hm, fun _ => hn⟩

/-- **The flag is set** at the end of a streak of failures. -/
theorem set (h : Tracks m n l past) (hm : 0 < m) (hflag : l.flag = false)
    (hset : ((l.count failed).settle m n).flag = true) :
    failed = true ∧ m ≤ failureStreak (mark failed :: past) := by
  rw [settle_flag, count_flag, hflag] at hset
  have hle : m ≤ (l.count failed).failures := by
    by_contra hlt
    simp [hlt] at hset
  rw [failureStreak_mark, ← h.failures]
  rw [count_failures] at hle
  cases failed with
  | true => exact ⟨rfl, hle⟩
  | false => exact absurd hle (Nat.not_le.mpr hm)

/-- **The flag is cleared** at the end of a streak of passes. -/
theorem clear (h : Tracks m n l past) (hn : 0 < n) (hflag : l.flag = true)
    (hclear : ((l.count failed).settle m n).flag = false) :
    failed = false ∧ n ≤ passStreak (mark failed :: past) := by
  rw [settle_flag, count_flag, hflag] at hclear
  have hle : n ≤ (l.count failed).passes := by
    by_contra hlt
    simp [hlt] at hclear
  rw [passStreak_mark, ← h.passes]
  rw [count_passes] at hle
  cases failed with
  | true => exact absurd hle (Nat.not_le.mpr hn)
  | false => exact ⟨rfl, hle⟩

end Tracks

end Latch

end Nodeglow
