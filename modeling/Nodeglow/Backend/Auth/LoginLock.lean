import Mathlib.Data.List.Sort
import Mathlib.Tactic.Linarith
import Nodeglow.Foundation.Census
import Nodeglow.Foundation.Run
import Nodeglow.Foundation.SlidingWindow

/-!
# The soft lock of the login

The failures of a user name are counted in a stored list of times: five in a quarter of an hour, or
twenty in a day, lock the account for clients without a device cookie. A login request reads the
list and decides, then compares the password, and a failure is recorded by reading the list again
and writing it back with one time more. All of this happens in one request after another at the
awaits, so that the list a request decides on may lack the failures of those that are under way.

Any number of requests that read the list before the first has recorded its failure compare a
password (`LoginLock.six_comparisons`). If a request only passes the check where it would also pass
with the requests under way recorded, and no failure is lost on its way into the list
(`LoginLock.Counted`), the limits hold for the comparisons (`LoginLock.comparisons_bounded`).

## Main results

* `LoginLock.Inv.step`, `LoginLock.comparisons_bounded` — one event, and whole runs.

Source: `backend/routers/auth.py`, lines 31–109 and 284–379.
-/

namespace Nodeglow.Auth

open SlidingWindow

/-! ### The failures -/

/-- `_LOCKOUT_ATTEMPTS`. -/
def lockoutAttempts : ℕ := 5

/-- `_LOCKOUT_WINDOW`. -/
def lockoutWindow : ℚ := 900

/-- `_LOCKOUT_LONG_ATTEMPTS`. -/
def lockoutLongAttempts : ℕ := 20

/-- `_LOCKOUT_LONG_WINDOW`. -/
def lockoutLongWindow : ℚ := 86400

/-- `_MAX_STORED_FAILURES`. -/
def maxStoredFailures : ℕ := 100

/-- The limits that `_lock_remaining` goes through. -/
def limits : List (ℕ × ℚ) :=
  [(lockoutAttempts, lockoutWindow), (lockoutLongAttempts, lockoutLongWindow)]

/-- Python's `int` of a number: the fraction is cut off. -/
def truncate (x : ℚ) : ℤ := x.num.tdiv x.den

/-- One round of the loop of `_lock_remaining`. -/
def remainingAfter (attempts : List ℚ) (now : ℚ) (remaining : ℤ) (p : ℕ × ℚ) : ℤ :=
  let sorted := (recent p.2 now attempts).insertionSort (· ≤ ·)
  if p.1 ≤ sorted.length then
    let unlockAt := sorted.getD (sorted.length - p.1) 0 + p.2
    max remaining (truncate (unlockAt - now) + 1)
  else remaining

/-- `_lock_remaining`. -/
def lockRemaining (attempts : List ℚ) (now : ℚ) : ℤ :=
  limits.foldl (remainingAfter attempts now) 0

/-- The list that `_record_failed_attempt` writes. -/
def recordFailure (attempts : List ℚ) (now : ℚ) : List ℚ :=
  let all := recent lockoutLongWindow now attempts ++ [now]
  all.drop (all.length - maxStoredFailures)

/-- The answer of a request that the lock refuses, with its `Retry-After`. -/
def refusal (remaining : ℤ) : String × ℤ :=
  let minutes := max 1 ((remaining + 59) / 60)
  ("Too many failed sign-in attempts for this account. Try again in " ++ toString minutes ++
    " minute" ++ (if minutes = 1 then "" else "s") ++
    ", or sign in from a browser you have used with this account before.", remaining)

/-! ### Requests -/

/-- Where a request without a device cookie is. -/
inductive Stage
  | idle
  /-- `_get_failed_attempts` has read the list. -/
  | queried (failures : List ℚ)
  /-- The lock has let the request pass. -/
  | admitted
  /-- The password was wrong. -/
  | compared (at' : ℚ)
  /-- The password was right. -/
  | accepted (at' : ℚ)
  /-- `_record_failed_attempt` has taken its time; without a comparison for a blank password, and
  for a directory account while the directory is off. -/
  | failing (comparedAt : Option ℚ) (now : ℚ)
  | reread (comparedAt : Option ℚ) (now : ℚ) (attempts : List ℚ)
  /-- Answered with 429. -/
  | refused (answer : String × ℤ)
  | ended
  deriving DecidableEq, Repr

namespace Stage

/-- The request has passed the lock, and its failure is not recorded yet. -/
def isUnderWay : Stage → Bool
  | .admitted | .compared _ | .accepted _ | .failing _ _ | .reread _ _ _ => true
  | _ => false

def isAdmitted : Stage → Bool
  | .admitted => true
  | _ => false

/-- When a request that is under way has compared. -/
def comparedAt : Stage → Option ℚ
  | .compared c | .accepted c => some c
  | .failing c _ | .reread c _ _ => c
  | _ => none

/-- The time that is going to be recorded. -/
def noted : Stage → Option ℚ
  | .failing _ now | .reread _ now _ => some now
  | _ => none

/-- A request takes the time of its failure after it has compared. -/
def Ordered (clock : ℚ) (stage : Stage) : Prop :=
  (∀ now, stage.noted = some now → now ≤ clock) ∧
    ∀ c, stage.comparedAt = some c → c ≤ clock ∧ ∀ now, stage.noted = some now → c ≤ now

end Stage

/-- The requests for one user name, and its list of failures. -/
structure LoginLock where
  clock : ℚ
  stored : List ℚ
  stages : ℕ → Stage
  /-- The requests under way, with the times at which they have passed the lock; the last one is the
  first. -/
  underWay : List (ℕ × ℚ)
  /-- The requests that have reached a comparison, and when. -/
  compared : List (ℕ × ℚ)

inductive Event
  | elapse (seconds : ℚ)
  | query (k : ℕ)
  | check (k : ℕ)
  /-- The directory or the stored hash decides on the password. -/
  | compare (k : ℕ) (right : Bool)
  /-- `_fail`. -/
  | fail (k : ℕ)
  | reread (k : ℕ)
  /-- `set_setting` commits the list. -/
  | store (k : ℕ)
  /-- The right password of an account without access to any tenant: answered with 403. -/
  | noAccess (k : ℕ)
  /-- The session is created, and the failures are cleared. -/
  | succeed (k : ℕ)
  /-- The request ends with an error. -/
  | abort (k : ℕ)
  deriving DecidableEq, Repr

def Event.isSuccess : Event → Bool
  | .succeed _ => true
  | _ => false

namespace LoginLock

variable (w : LoginLock)

def init (clock : ℚ) (stored : List ℚ) : LoginLock where
  clock := clock
  stored := stored
  stages _ := .idle
  underWay := []
  compared := []

def setStage (k : ℕ) (stage : Stage) : LoginLock :=
  { w with stages := Function.update w.stages k stage }

/-- A request is no longer under way. -/
def finish (k : ℕ) : LoginLock :=
  { w.setStage k .ended with underWay := w.underWay.filter fun x => x.1 ≠ k }

/-- One event; it has no value where the event cannot happen. -/
def step : Event → Option LoginLock
  | .elapse seconds => if 0 ≤ seconds then some { w with clock := w.clock + seconds } else none
  | .query k => if w.stages k = .idle then some (w.setStage k (.queried w.stored)) else none
  | .check k =>
      match w.stages k with
      | .queried failures =>
          let remaining := lockRemaining failures w.clock
          if remaining ≠ 0 then some (w.setStage k (.refused (refusal remaining)))
          else some { w.setStage k .admitted with underWay := (k, w.clock) :: w.underWay }
      | _ => none
  | .compare k right =>
      match w.stages k with
      | .admitted =>
          some { w.setStage k (if right then .accepted w.clock else .compared w.clock) with
            compared := (k, w.clock) :: w.compared }
      | _ => none
  | .fail k =>
      match w.stages k with
      | .admitted => some (w.setStage k (.failing none w.clock))
      | .compared c => some (w.setStage k (.failing (some c) w.clock))
      | _ => none
  | .reread k =>
      match w.stages k with
      | .failing c now => some (w.setStage k (.reread c now w.stored))
      | _ => none
  | .store k =>
      match w.stages k with
      | .reread _ now attempts => some { w.finish k with stored := recordFailure attempts now }
      | _ => none
  | .noAccess k =>
      match w.stages k with
      | .accepted _ => some (w.finish k)
      | _ => none
  | .succeed k =>
      match w.stages k with
      | .accepted _ => some { w.finish k with stored := [] }
      | _ => none
  | .abort k => if w.stages k = .idle then none else some (w.finish k)

/-- The transition relation of `LoginLock.step`. -/
def Step (w : LoginLock) (e : Event) (w' : LoginLock) : Prop := w.step e = some w'

/-- **What the limits rely on.** A request passes the lock only where it would pass with those under
way recorded; a failure is stored over the list it was added to; and no request that has compared
ends without its failure being stored. -/
def Counted (w : LoginLock) : Event → Prop
  | .check k =>
      match w.stages k with
      | .queried failures =>
          lockRemaining failures w.clock = 0 →
            ∀ p ∈ limits, (recent p.2 w.clock w.stored).length + w.underWay.length < p.1
      | _ => True
  | .store k =>
      match w.stages k with
      | .reread _ _ attempts => attempts = w.stored
      | _ => True
  | .noAccess _ => False
  | .abort k => (w.stages k).comparedAt = none
  | _ => True

end LoginLock

/-! ### Lists of times -/

/-- The number of times after a given one. -/
def after (a : ℚ) (l : List ℚ) : ℕ := l.countP (a < ·)

section After

variable {a t : ℚ} {window : ℚ} {l : List ℚ}

theorem length_recent : (recent window t l).length = after (t - window) l :=
  (List.countP_eq_length_filter ..).symm

theorem after_anti {b : ℚ} (hab : a ≤ b) : after b l ≤ after a l :=
  List.countP_mono_left fun x _ hx => by
    simp only [decide_eq_true_eq] at hx ⊢
    exact hab.trans_lt hx

theorem length_recent_anti (window : ℚ) (l : List ℚ) {t' : ℚ} (h : t ≤ t') :
    (recent window t' l).length ≤ (recent window t l).length := by
  rw [length_recent, length_recent]
  exact after_anti (sub_le_sub_right h window)

theorem after_recent (h : t - window ≤ a) : after a (recent window t l) = after a l := by
  unfold after recent
  rw [List.countP_filter]
  refine List.countP_congr fun x _ => ?_
  simp only [Bool.and_eq_true, decide_eq_true_eq, and_iff_left_iff_imp]
  exact fun hx => h.trans_lt hx

theorem length_windowFrom_le (window a : ℚ) (l : List ℚ) :
    (windowFrom window a l).length ≤ after a l := by
  rw [windowFrom, ← List.countP_eq_length_filter]
  refine List.countP_mono_left fun x _ hx => ?_
  simp only [decide_eq_true_eq] at hx ⊢
  exact hx.1

end After

/-! ### The stored list is not cut -/

/-- The failures that a request under way will find recent, and the requests that have passed the
lock before it, are fewer than the limit. -/
def Fits (stored : List ℚ) : List (ℕ × ℚ) → Prop
  | [] => True
  | x :: l =>
      (recent lockoutLongWindow x.2 stored).length + l.length + 1 ≤ lockoutLongAttempts ∧
        Fits stored l

section Fits

variable {stored stored' : List ℚ} {l : List (ℕ × ℚ)} {k : ℕ} {t now : ℚ}

theorem Fits.sublist {l' : List (ℕ × ℚ)} (h : Fits stored l) (hl : l'.Sublist l) :
    Fits stored l' := by
  induction hl with
  | slnil => trivial
  | cons x _ ih => exact ih h.2
  | cons_cons x hsub ih =>
    refine ⟨?_, ih h.2⟩
    have := h.1
    have := hsub.length_le
    omega

theorem fits_of_length (h : stored.length + l.length ≤ lockoutLongAttempts) : Fits stored l := by
  induction l with
  | nil => trivial
  | cons x l ih =>
    rw [List.length_cons] at h
    refine ⟨?_, ih (by omega)⟩
    have := (recent_sublist lockoutLongWindow x.2 stored).length_le
    omega

/-- What a request under way finds recent. -/
theorem Fits.length_recent_lt (h : Fits stored l) (hx : (k, t) ∈ l) (ht : t ≤ now) :
    (recent lockoutLongWindow now stored).length < lockoutLongAttempts := by
  induction l with
  | nil => cases hx
  | cons y l ih =>
    rcases List.mem_cons.mp hx with rfl | hx
    · have hfirst : (recent lockoutLongWindow t stored).length + l.length + 1 ≤
          lockoutLongAttempts := h.1
      have hanti := length_recent_anti lockoutLongWindow stored ht
      omega
    · exact ih h.2 hx

/-- The stored list is never cut. -/
theorem Fits.recordFailure_eq (h : Fits stored l) (hx : (k, t) ∈ l) (ht : t ≤ now) :
    recordFailure stored now = recent lockoutLongWindow now stored ++ [now] := by
  have hlt := h.length_recent_lt hx ht
  have hcap : (recent lockoutLongWindow now stored ++ [now]).length - maxStoredFailures = 0 := by
    rw [List.length_append]
    unfold lockoutLongAttempts at hlt
    unfold maxStoredFailures
    simp only [List.length_cons, List.length_nil]
    omega
  simp only [recordFailure]
  rw [hcap, List.drop_zero]

/-- The failure of one request is recorded. -/
theorem Fits.record (h : Fits stored l) (hl : (l.map Prod.fst).Nodup) (hx : (k, t) ∈ l)
    (ht : t ≤ now) :
    Fits (recent lockoutLongWindow now stored ++ [now]) (l.filter fun x => x.1 ≠ k) := by
  induction l with
  | nil => cases hx
  | cons y l ih =>
    obtain ⟨hy, hl⟩ := List.nodup_cons.mp hl
    rcases List.mem_cons.mp hx with rfl | hx
    · -- the older requests find all that is left in the list
      rw [List.filter_cons_of_neg (by simp)]
      refine fits_of_length ?_
      have hfirst : (recent lockoutLongWindow t stored).length + l.length + 1 ≤
          lockoutLongAttempts := h.1
      have hanti := length_recent_anti lockoutLongWindow stored ht
      have hfilter := List.length_filter_le (fun x : ℕ × ℚ => decide (x.1 ≠ k)) l
      rw [List.length_append, List.length_singleton]
      omega
    · -- one request less before a newer one, and one failure more
      have hne : y.1 ≠ k := by
        rintro rfl
        exact hy (List.mem_map.mpr ⟨_, hx, rfl⟩)
      rw [List.filter_cons_of_pos (by simpa using hne)]
      refine ⟨?_, ih h.2 hl hx⟩
      have hlt : (l.filter fun x => decide (x.1 ≠ k)).length < l.length :=
        List.length_filter_lt_length_iff_exists.mpr ⟨(k, t), hx, by simp⟩
      have hrecent : (recent lockoutLongWindow y.2
          (recent lockoutLongWindow now stored ++ [now])).length ≤
            (recent lockoutLongWindow y.2 stored).length + 1 := by
        rw [recent_append, List.length_append]
        refine Nat.add_le_add ?_ (List.length_filter_le ..)
        exact ((recent_sublist lockoutLongWindow now stored).filter _).length_le
      have := h.1
      omega

end Fits

/-! ### The invariant -/

namespace LoginLock

variable {w w' : LoginLock}

/-- The times of the comparisons. -/
def times (w : LoginLock) : List ℚ := w.compared.map Prod.snd

/-- The requests under way that have compared after the given time. -/
def pending (w : LoginLock) (a : ℚ) : ℕ :=
  w.underWay.countP fun x => (w.stages x.1).comparedAt.any (a < ·)

/-- The requests under way that may compare yet. -/
def waiting (w : LoginLock) : ℕ := w.underWay.countP fun x => (w.stages x.1).isAdmitted

structure Inv (w : LoginLock) : Prop where
  nodup : (w.underWay.map Prod.fst).Nodup
  mem_iff : ∀ k, k ∈ w.underWay.map Prod.fst ↔ (w.stages k).isUnderWay
  /-- A request takes the time of its failure after it has passed the lock. -/
  noted : ∀ x ∈ w.underWay, x.2 ≤ w.clock ∧ ∀ now, (w.stages x.1).noted = some now → x.2 ≤ now
  order : ∀ k, (w.stages k).Ordered w.clock
  fits : Fits w.stored w.underWay
  /-- A comparison is under way, or recorded not before its time. -/
  covered : ∀ a, w.clock - lockoutLongWindow ≤ a →
    after a w.times ≤ after a w.stored + w.pending a
  /-- The windows that are still open have room for the requests that may compare yet. -/
  room : ∀ p ∈ limits, ∀ a, w.clock ≤ a + p.2 → after a w.times + w.waiting ≤ p.1
  bounded : ∀ p ∈ limits, ∀ a, (windowFrom p.2 a w.times).length ≤ p.1
  fresh : ∀ k, (w.stages k).comparedAt = none → w.stages k ≠ .ended →
    k ∉ w.compared.map Prod.fst

theorem stages_setStage (w : LoginLock) (k : ℕ) (stage : Stage) (j : ℕ) :
    (w.setStage k stage).stages j = if j = k then stage else w.stages j := by
  simp [setStage, Function.update_apply]

theorem ordered_setStage {k : ℕ} {stage : Stage} {clock : ℚ} (hstage : stage.Ordered clock)
    (h : ∀ j, (w.stages j).Ordered clock) (j : ℕ) :
    ((w.setStage k stage).stages j).Ordered clock := by
  rw [stages_setStage]
  split_ifs
  · exact hstage
  · exact h j

theorem inv_init (clock : ℚ) (stored : List ℚ) : (init clock stored).Inv where
  nodup := List.nodup_nil
  mem_iff k := by simp [init, Stage.isUnderWay]
  noted x hx := by cases hx
  order k := ⟨fun _ h => (by cases h), fun _ h => (by cases h)⟩
  fits := trivial
  covered a _ := Nat.zero_le _
  room p _ a _ := Nat.zero_le _
  bounded p _ a := Nat.zero_le _
  fresh k _ _ h := by cases h

/-- A request gets on: it stays under way, or it was not and is not. -/
theorem Inv.setStage (h : w.Inv) {k : ℕ} {stage : Stage}
    (hway : stage.isUnderWay = (w.stages k).isUnderWay)
    (hcompared : stage.comparedAt = (w.stages k).comparedAt)
    (hwaiting : stage.isAdmitted → (w.stages k).isAdmitted)
    (hnoted : ∀ now, stage.noted = some now → now = w.clock ∨ (w.stages k).noted = some now)
    (hended : w.stages k ≠ .ended) : (w.setStage k stage).Inv := by
  have hat (j : ℕ) : ((w.setStage k stage).stages j).comparedAt = (w.stages j).comparedAt := by
    rw [stages_setStage]
    split_ifs with hjk
    · rw [hcompared, hjk]
    · rfl
  have hpending (a : ℚ) : (w.setStage k stage).pending a = w.pending a :=
    List.countP_congr fun x _ => by rw [hat]
  have hle : (w.setStage k stage).waiting ≤ w.waiting := by
    refine List.countP_mono_left fun x _ hx => ?_
    rw [stages_setStage] at hx
    split_ifs at hx with hxk
    · rw [hxk]
      exact hwaiting hx
    · exact hx
  refine ⟨h.nodup, fun j => ?_, fun x hx => ?_, fun j => ?_, h.fits, fun a ha => ?_,
    fun p hp a ha => ?_, h.bounded, fun j hj hne => ?_⟩
  · rw [stages_setStage]
    split_ifs with hjk
    · rw [hway, hjk]
      exact h.mem_iff k
    · exact h.mem_iff j
  · refine ⟨(h.noted x hx).1, fun now hnow => ?_⟩
    rw [stages_setStage] at hnow
    split_ifs at hnow with hxk
    · rcases hnoted now hnow with rfl | hold
      · exact (h.noted x hx).1
      · exact (h.noted x hx).2 now (hxk ▸ hold)
    · exact (h.noted x hx).2 now hnow
  · refine ordered_setStage ⟨fun now hnow => ?_, fun c hc => ?_⟩ h.order j
    · rcases hnoted now hnow with rfl | hold
      · exact le_rfl
      · exact (h.order k).1 now hold
    · obtain ⟨hle, hnow⟩ := (h.order k).2 c (hcompared ▸ hc)
      refine ⟨hle, fun now hnow' => ?_⟩
      rcases hnoted now hnow' with rfl | hold
      · exact hle
      · exact hnow now hold
  · rw [hpending]
    exact h.covered a ha
  · exact (Nat.add_le_add_left hle _).trans (h.room p hp a ha)
  · rw [hat] at hj
    rw [stages_setStage] at hne
    split_ifs at hne with hjk
    · exact h.fresh j hj (hjk ▸ hended)
    · exact h.fresh j hj hne

/-- The waiting requests and those that have compared are under way. -/
theorem pending_add_waiting_le (w : LoginLock) (a : ℚ) :
    w.pending a + w.waiting ≤ w.underWay.length := by
  refine Census.countP_add_countP_le (fun x hx hadm => ?_) w.underWay
  cases hstage : w.stages x.1 <;> simp_all [Stage.comparedAt, Stage.isAdmitted]

/-- A request passes the lock. -/
theorem Inv.admit (h : w.Inv) {k : ℕ} {failures : List ℚ}
    (hstage : w.stages k = .queried failures)
    (hroom : ∀ p ∈ limits, (recent p.2 w.clock w.stored).length + w.underWay.length < p.1) :
    Inv { w.setStage k .admitted with underWay := (k, w.clock) :: w.underWay } := by
  have hk : k ∉ w.underWay.map Prod.fst := by
    rw [h.mem_iff, hstage]
    simp [Stage.isUnderWay]
  have hcount (p : Stage → Bool) :
      w.underWay.countP (fun x => p ((w.setStage k .admitted).stages x.1)) =
        w.underWay.countP fun x => p (w.stages x.1) :=
    Census.countP_update_of_notMem hk w.stages .admitted p
  have hself : (w.setStage k .admitted).stages k = .admitted := by
    rw [stages_setStage, if_pos rfl]
  have hpending (a : ℚ) :
      pending { w.setStage k .admitted with underWay := (k, w.clock) :: w.underWay } a =
        w.pending a := by
    unfold pending
    rw [List.countP_cons, hcount fun s => s.comparedAt.any (a < ·), hself]
    simp [Stage.comparedAt]
  have hwaiting :
      waiting { w.setStage k .admitted with underWay := (k, w.clock) :: w.underWay } =
        w.waiting + 1 := by
    unfold waiting
    rw [List.countP_cons, hcount Stage.isAdmitted, hself]
    simp [Stage.isAdmitted]
  refine ⟨List.nodup_cons.mpr ⟨hk, h.nodup⟩, fun j => ?_, fun x hx => ?_, fun j => ?_, ⟨?_, h.fits⟩,
    fun a ha => ?_, fun p hp a ha => ?_, h.bounded, fun j hj hne => ?_⟩
  · change j ∈ k :: w.underWay.map Prod.fst ↔ ((w.setStage k .admitted).stages j).isUnderWay
    rw [List.mem_cons, stages_setStage]
    split_ifs with hjk
    · simp [hjk, Stage.isUnderWay]
    · simp [hjk, h.mem_iff]
  · change x.2 ≤ w.clock ∧ ∀ now, ((w.setStage k .admitted).stages x.1).noted = some now → _
    rw [stages_setStage]
    rcases List.mem_cons.mp hx with rfl | hx
    · simp [Stage.noted]
    · have hxk : x.1 ≠ k := fun heq => hk (heq ▸ List.mem_map_of_mem hx)
      rw [if_neg hxk]
      exact h.noted x hx
  · exact ordered_setStage (by simp [Stage.Ordered, Stage.noted, Stage.comparedAt]) h.order j
  · have := hroom _ (List.mem_cons_of_mem _ List.mem_cons_self)
    exact this
  · rw [hpending]
    exact h.covered a ha
  · -- what the window holds is recent in the list, or under way
    have hlong : p.2 ≤ lockoutLongWindow := by
      simp only [limits, List.mem_cons, List.not_mem_nil, or_false] at hp
      rcases hp with rfl | rfl
      · simp only [lockoutWindow, lockoutLongWindow]
        norm_num
      · exact le_rfl
    have hstart : w.clock - p.2 ≤ a := sub_le_iff_le_add.mpr ha
    have hcovered := h.covered a ((sub_le_sub_left hlong w.clock).trans hstart)
    have hrecent : after a w.stored ≤ (recent p.2 w.clock w.stored).length := by
      rw [length_recent]
      exact after_anti hstart
    have hunder := w.pending_add_waiting_le a
    have hlt := hroom p hp
    rw [hwaiting]
    change after a w.times + (w.waiting + 1) ≤ p.1
    omega
  · change ((w.setStage k .admitted).stages j).comparedAt = none at hj
    change (w.setStage k .admitted).stages j ≠ .ended at hne
    rw [stages_setStage] at hj hne
    split_ifs at hj hne with hjk
    · exact h.fresh j (by simp [hjk, hstage, Stage.comparedAt]) (by simp [hjk, hstage])
    · exact h.fresh j hj hne

/-- A request compares the password. -/
theorem Inv.compare (h : w.Inv) {k : ℕ} {stage : Stage} (hstage : w.stages k = .admitted)
    (hway : stage.isUnderWay) (hcompared : stage.comparedAt = some w.clock)
    (hadmitted : stage.isAdmitted = false) (hnoted : stage.noted = none) :
    Inv { w.setStage k stage with compared := (k, w.clock) :: w.compared } := by
  have hk : k ∈ w.underWay.map Prod.fst := by
    rw [h.mem_iff, hstage]
    rfl
  have hafter (a : ℚ) : after a (w.clock :: w.times) =
      after a w.times + (decide (a < w.clock)).toNat := by
    unfold after
    rw [List.countP_cons]
    by_cases ha : a < w.clock <;> simp [ha]
  have hpending (a : ℚ) : (w.setStage k stage).pending a =
      w.pending a + (decide (a < w.clock)).toNat := by
    have heq : (w.setStage k stage).pending a + ((w.stages k).comparedAt.any (a < ·)).toNat =
        w.pending a + (stage.comparedAt.any (a < ·)).toNat :=
      Census.countP_update h.nodup hk w.stages stage fun s => s.comparedAt.any (a < ·)
    rw [hstage, hcompared] at heq
    exact heq
  have hwaiting : (w.setStage k stage).waiting + 1 = w.waiting := by
    have heq : (w.setStage k stage).waiting + (w.stages k).isAdmitted.toNat =
        w.waiting + stage.isAdmitted.toNat :=
      Census.countP_update h.nodup hk w.stages stage Stage.isAdmitted
    rw [hstage, hadmitted] at heq
    exact heq
  refine ⟨h.nodup, fun j => ?_, fun x hx => ?_, fun j => ?_, h.fits, fun a ha => ?_,
    fun p hp a ha => ?_, fun p hp a => ?_, fun j hj hne => ?_⟩
  · change j ∈ w.underWay.map Prod.fst ↔ ((w.setStage k stage).stages j).isUnderWay
    rw [stages_setStage]
    split_ifs with hjk
    · simp [hjk, hk, hway]
    · exact h.mem_iff j
  · change x.2 ≤ w.clock ∧ ∀ now, ((w.setStage k stage).stages x.1).noted = some now → _
    rw [stages_setStage]
    split_ifs
    · exact ⟨(h.noted x hx).1, by simp [hnoted]⟩
    · exact h.noted x hx
  · refine ordered_setStage ⟨by simp [hnoted], fun c hc => ⟨?_, by simp [hnoted]⟩⟩ h.order j
    exact (Option.some.inj (hcompared.symm.trans hc)).symm.le
  · change after a (w.clock :: w.times) ≤ after a w.stored + (w.setStage k stage).pending a
    rw [hafter, hpending]
    have := h.covered a ha
    omega
  · change after a (w.clock :: w.times) + (w.setStage k stage).waiting ≤ p.1
    rw [hafter]
    have := h.room p hp a ha
    have : (decide (a < w.clock)).toNat ≤ 1 := Bool.toNat_le _
    omega
  · change (windowFrom p.2 a (w.clock :: w.times)).length ≤ p.1
    by_cases hin : a < w.clock ∧ w.clock ≤ a + p.2
    · have hroom := h.room p hp a hin.2
      have hle := length_windowFrom_le p.2 a w.times
      rw [windowFrom, List.filter_cons_of_pos (by simpa using hin), List.length_cons]
      change (windowFrom p.2 a w.times).length + 1 ≤ p.1
      omega
    · rw [windowFrom, List.filter_cons_of_neg (by simpa using hin)]
      exact h.bounded p hp a
  · change ((w.setStage k stage).stages j).comparedAt = none at hj
    change (w.setStage k stage).stages j ≠ .ended at hne
    change j ∉ k :: w.compared.map Prod.fst
    rw [stages_setStage] at hj hne
    split_ifs at hj hne with hjk
    · rw [hcompared] at hj
      cases hj
    · rw [List.mem_cons, not_or]
      exact ⟨hjk, h.fresh j hj hne⟩

/-- A request ends, and the failures are recorded so that no comparison is lost. -/
theorem Inv.finish (h : w.Inv) {k : ℕ} {stored : List ℚ}
    (hfits : Fits stored (w.underWay.filter fun x => x.1 ≠ k))
    (hcovered : ∀ a, w.clock - lockoutLongWindow ≤ a →
      after a w.stored + ((w.stages k).comparedAt.any (a < ·)).toNat ≤ after a stored) :
    Inv { w.finish k with stored := stored } := by
  have hk : k ∉ (w.underWay.filter fun x => x.1 ≠ k).map Prod.fst := by
    simp
  have hsub : (w.underWay.filter fun x => x.1 ≠ k).Sublist w.underWay := List.filter_sublist
  have hcount (p : Stage → Bool) :
      (w.underWay.filter fun x => x.1 ≠ k).countP
          (fun x => p (Function.update w.stages k .ended x.1)) =
        (w.underWay.filter fun x => x.1 ≠ k).countP fun x => p (w.stages x.1) :=
    Census.countP_update_of_notMem hk w.stages .ended p
  have hpending (a : ℚ) : w.pending a ≤ (w.finish k).pending a +
      ((w.stages k).comparedAt.any (a < ·)).toNat := by
    change w.pending a ≤ (w.underWay.filter fun x => x.1 ≠ k).countP
      (fun x => (Function.update w.stages k .ended x.1).comparedAt.any (a < ·)) + _
    rw [hcount fun s => s.comparedAt.any (a < ·)]
    by_cases hmem : k ∈ w.underWay.map Prod.fst
    · exact (Census.countP_remove h.nodup hmem
        fun j => (w.stages j).comparedAt.any (a < ·)).symm.le
    · have hall : (w.underWay.filter fun x => x.1 ≠ k) = w.underWay := by
        refine List.filter_eq_self.mpr fun x hx => ?_
        simpa using fun heq : x.1 = k => hmem (heq ▸ List.mem_map_of_mem hx)
      rw [hall]
      exact Nat.le_add_right ..
  have hwaiting : (w.finish k).waiting ≤ w.waiting := by
    change (w.underWay.filter fun x => x.1 ≠ k).countP
      (fun x => (Function.update w.stages k .ended x.1).isAdmitted) ≤ _
    rw [hcount Stage.isAdmitted]
    exact hsub.countP_le
  refine ⟨(hsub.map Prod.fst).nodup h.nodup, fun j => ?_, fun x hx => ?_, fun j => ?_, hfits,
    fun a ha => ?_, fun p hp a ha => ?_, h.bounded, fun j hj hne => ?_⟩
  · change j ∈ (w.underWay.filter fun x => x.1 ≠ k).map Prod.fst ↔
      ((w.setStage k .ended).stages j).isUnderWay
    rw [stages_setStage]
    split_ifs with hjk
    · simp [hjk, Stage.isUnderWay]
    · rw [← h.mem_iff]
      simp [hjk]
  · obtain ⟨hx, hxk⟩ := List.mem_filter.mp hx
    change x.2 ≤ w.clock ∧ ∀ now, ((w.setStage k .ended).stages x.1).noted = some now → _
    rw [stages_setStage, if_neg (by simpa using hxk)]
    exact h.noted x hx
  · exact ordered_setStage (by simp [Stage.Ordered, Stage.noted, Stage.comparedAt]) h.order j
  · change after a w.times ≤ after a stored + (w.finish k).pending a
    have := h.covered a ha
    have := hpending a
    have := hcovered a ha
    omega
  · change after a w.times + (w.finish k).waiting ≤ p.1
    have := h.room p hp a ha
    omega
  · change ((w.setStage k .ended).stages j).comparedAt = none at hj
    change (w.setStage k .ended).stages j ≠ .ended at hne
    rw [stages_setStage] at hj hne
    split_ifs at hj hne
    · exact absurd rfl hne
    · exact h.fresh j hj hne

/-- The failure of a request is stored over the list it was added to. -/
theorem Inv.store (h : w.Inv) {k : ℕ} {c : Option ℚ} {now : ℚ}
    (hstage : w.stages k = .reread c now w.stored) :
    Inv { w.finish k with stored := recordFailure w.stored now } := by
  have hmem : k ∈ w.underWay.map Prod.fst := by
    rw [h.mem_iff, hstage]
    rfl
  obtain ⟨⟨j, t⟩, hx, rfl⟩ := List.mem_map.mp hmem
  have hnoted : (w.stages j).noted = some now := by rw [hstage]; rfl
  have ht : t ≤ now := (h.noted (j, t) hx).2 now hnoted
  have hnow : now ≤ w.clock := (h.order j).1 now hnoted
  rw [h.fits.recordFailure_eq hx ht]
  refine h.finish (h.fits.record h.nodup hx ht) fun a ha => ?_
  have hlate : now - lockoutLongWindow ≤ a := (sub_le_sub_right hnow _).trans ha
  have hkept : after a (recent lockoutLongWindow now w.stored ++ [now]) =
      after a w.stored + (decide (a < now)).toNat := by
    rw [after, List.countP_append]
    change after a (recent lockoutLongWindow now w.stored) + _ = _
    rw [after_recent hlate]
    by_cases hnow : a < now <;> simp [hnow]
  rw [hkept]
  refine Nat.add_le_add_left ?_ _
  cases hc : (w.stages j).comparedAt with
  | none => simp
  | some c' =>
    -- the failure is recorded after the comparison
    have hle : c' ≤ now := ((h.order j).2 c' hc).2 now hnoted
    by_cases hac : a < c'
    · simp [hac, hac.trans_le hle]
    · simp [hac]

/-- **One event** that is not a success. -/
theorem Inv.step {e : Event} (h : w.Inv) (hfail : e.isSuccess = false) (hcounted : w.Counted e)
    (hstep : w.Step e w') : w'.Inv := by
  unfold Step LoginLock.step at hstep
  cases e with
  | elapse seconds =>
    obtain ⟨hpos, rfl⟩ := made_of_guard hstep
    have hle : w.clock ≤ w.clock + seconds := le_add_of_nonneg_right hpos
    exact ⟨h.nodup, h.mem_iff, fun x hx => ⟨(h.noted x hx).1.trans hle, (h.noted x hx).2⟩,
      fun k => ⟨fun now hnow => ((h.order k).1 now hnow).trans hle, fun c hc =>
        ⟨((h.order k).2 c hc).1.trans hle, ((h.order k).2 c hc).2⟩⟩,
      h.fits, fun a ha => h.covered a ((sub_le_sub_right hle _).trans ha),
      fun p hp a ha => h.room p hp a (hle.trans ha), h.bounded, h.fresh⟩
  | query k =>
    obtain ⟨hidle, rfl⟩ := made_of_guard hstep
    refine h.setStage ?_ ?_ ?_ ?_ ?_ <;>
      simp [hidle, Stage.isUnderWay, Stage.comparedAt, Stage.isAdmitted, Stage.noted]
  | check k =>
    simp only at hstep
    split at hstep
    · next failures hstage =>
      split_ifs at hstep with hlocked
      · obtain rfl := Option.some.inj hstep
        refine h.setStage ?_ ?_ ?_ ?_ ?_ <;>
          simp [hstage, Stage.isUnderWay, Stage.comparedAt, Stage.isAdmitted, Stage.noted]
      · obtain rfl := Option.some.inj hstep
        simp only [Counted, hstage] at hcounted
        exact h.admit hstage (hcounted (not_not.mp hlocked))
    · cases hstep
  | compare k right =>
    simp only at hstep
    split at hstep
    · next hstage =>
      obtain rfl := Option.some.inj hstep
      cases right
      · exact h.compare hstage rfl rfl rfl rfl
      · exact h.compare hstage rfl rfl rfl rfl
    · cases hstep
  | fail k =>
    simp only at hstep
    split at hstep
    · next hstage =>
      obtain rfl := Option.some.inj hstep
      refine h.setStage ?_ ?_ ?_ ?_ ?_ <;>
        simp [hstage, Stage.isUnderWay, Stage.comparedAt, Stage.isAdmitted, Stage.noted]
    · next c hstage =>
      obtain rfl := Option.some.inj hstep
      refine h.setStage ?_ ?_ ?_ ?_ ?_ <;>
        simp [hstage, Stage.isUnderWay, Stage.comparedAt, Stage.isAdmitted, Stage.noted]
    · cases hstep
  | reread k =>
    simp only at hstep
    split at hstep
    · next c now hstage =>
      obtain rfl := Option.some.inj hstep
      refine h.setStage ?_ ?_ ?_ ?_ ?_ <;>
        simp [hstage, Stage.isUnderWay, Stage.comparedAt, Stage.isAdmitted, Stage.noted]
    · cases hstep
  | store k =>
    simp only at hstep
    split at hstep
    · next c now attempts hstage =>
      obtain rfl := Option.some.inj hstep
      simp only [Counted, hstage] at hcounted
      subst hcounted
      exact h.store hstage
    · cases hstep
  | noAccess k => exact hcounted.elim
  | succeed k => cases hfail
  | abort k =>
    simp only at hstep
    split_ifs at hstep with hidle
    obtain rfl := Option.some.inj hstep
    have hnone : (w.stages k).comparedAt = none := hcounted
    have hkept (a : ℚ) (_ : w.clock - lockoutLongWindow ≤ a) :
        after a w.stored + ((w.stages k).comparedAt.any (a < ·)).toNat ≤ after a w.stored := by
      simp [hnone]
    exact h.finish (h.fits.sublist List.filter_sublist) hkept

/-- **The lock bounds guessing**, in any run without a success in which requests pass the lock only
where they would pass with those under way recorded, and no failure is lost: every window holds at
most as many comparisons as its limit allows, and a request that is refused has not compared. -/
theorem comparisons_bounded {clock : ℚ} {stored : List ℚ} {l : List Event}
    (hrun : Run (Guarded Counted Step) (init clock stored) l w)
    (hfail : ∀ e ∈ l, e.isSuccess = false) :
    (∀ p ∈ limits, ∀ a, (windowFrom p.2 a w.times).length ≤ p.1) ∧
      ∀ k answer, w.stages k = .refused answer → k ∉ w.compared.map Prod.fst := by
  have h : w.Inv := hrun.invariant_of_forall
    (fun _ _ _ hfail h hstep => h.step hfail hstep.1 hstep.2) hfail (inv_init clock stored)
  refine ⟨h.bounded, fun k answer hk => h.fresh k ?_ ?_⟩ <;> simp [hk, Stage.comparedAt]

/-! ### Samples -/

/-- A request with a wrong password, from its query to the stored failure. -/
def sampleAttempt (k : ℕ) : List Event :=
  [.query k, .check k, .compare k false, .fail k, .reread k, .store k]

/-- Six requests one after another: the sixth is refused. -/
def sampleInTurn : List Event :=
  (List.range 5).flatMap sampleAttempt ++ [.query 5, .check 5]

/-- Six requests at once: all have read the list before the first has stored its failure. -/
def sampleAtOnce : List Event :=
  (List.range 6).map .query ++ (List.range 6).map .check ++
    (List.range 6).map fun k => .compare k false

instance (w : LoginLock) (e : Event) : Decidable (w.Counted e) := by
  unfold Counted
  split
  · split <;> infer_instance
  · split <;> infer_instance
  all_goals infer_instance

def sampleView (w : LoginLock) : List ℚ × Stage := (w.times, w.stages 5)

theorem comparisons_bounded_in_turn :
    ∃ w, Run (Guarded Counted Step) (init 1000 []) sampleInTurn w ∧
      sampleView w = (List.replicate 5 1000, .refused (refusal 901)) ∧
      (∀ p ∈ limits, ∀ a, (windowFrom p.2 a w.times).length ≤ p.1) ∧
        ∀ k answer, w.stages k = .refused answer → k ∉ w.compared.map Prod.fst := by
  have hview : (sampleInTurn.foldlM
      (fun (w : LoginLock) e => if w.Counted e then w.step e else none)
      (init 1000 [])).map sampleView = some (List.replicate 5 1000, .refused (refusal 901)) := by
    decide +kernel
  obtain ⟨w, hw, heq⟩ := Option.map_eq_some_iff.mp hview
  have hrun := Run.guarded_of_foldlM hw
  exact ⟨w, hrun, heq, comparisons_bounded hrun (by decide)⟩

/-- Six requests compare within a quarter of an hour. -/
theorem six_comparisons :
    ¬∀ (clock : ℚ) (stored : List ℚ) (l : List Event) (w : LoginLock),
      Run Step (init clock stored) l w → (∀ e ∈ l, e.isSuccess = false) →
        (∀ p ∈ limits, ∀ a, (windowFrom p.2 a w.times).length ≤ p.1) ∧
          ∀ k answer, w.stages k = .refused answer → k ∉ w.compared.map Prod.fst := by
  intro hall
  have hview : (sampleAtOnce.foldlM step (init 1000 [])).map times =
      some (List.replicate 6 1000) := by
    decide +kernel
  obtain ⟨w, hw, heq⟩ := Option.map_eq_some_iff.mp hview
  have hbound := (hall _ _ _ w (Run.of_foldlM hw) (by decide)).1 _ List.mem_cons_self 999
  rw [heq] at hbound
  revert hbound
  decide +kernel

end LoginLock

end Nodeglow.Auth
