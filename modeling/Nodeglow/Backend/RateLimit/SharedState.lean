import Mathlib.Tactic.Linarith
import Nodeglow.Foundation.SlidingWindow

/-!
# The shared sliding-window counters

All rate limiters of a process keep their hits in one dictionary, one list of times for each key.
`memIncr` records a hit, `memCount` only reads; both prune the list of their own key to the window
of the caller. Every five minutes a recording call first drops the stale keys of *all* callers
(`cleanupLocked`), and what it takes for stale is decided by its own window.

Times are seconds of a monotonic clock, taken as rational numbers.

## Main results

* `SharedState.stored_memIncr`, `SharedState.stored_memCount` — what the calls leave of each key.
* `SharedState.Tracks.memIncr`, `SharedState.Tracks.memCount` — the store still shows, through the
  window of each key, every hit recorded for it.

Source: `backend/services/shared_state.py`, lines 40–45 and 105–142.
-/

namespace Nodeglow.RateLimit

open SlidingWindow

/-- The in-memory store: the times of the hits of each key, and the last cleanup. -/
structure SharedState (Key : Type) where
  hits : Key → Option (List ℚ)
  lastCleanup : ℚ

namespace SharedState

variable {Key : Type}

def empty : SharedState Key := ⟨fun _ => none, 0⟩

/-- A list without hits, or whose last hit is before the cutoff. -/
def isStale (cutoff : ℚ) (v : List ℚ) : Bool :=
  match v.getLast? with
  | none => true
  | some t => t < cutoff

/-- Remove the stale keys. -/
def cleanupLocked (s : SharedState Key) (now : ℚ) (defaultWindow : ℕ) : SharedState Key where
  hits k := (s.hits k).filter fun v => !isStale (now - defaultWindow * 2) v
  lastCleanup := now

variable [DecidableEq Key]

/-- Record one hit for the key and return the number of hits in the window, this one included. -/
def memIncr (s : SharedState Key) (key : Key) (windowSeconds : ℕ) (now : ℚ) :
    SharedState Key × ℕ :=
  let s := if now - s.lastCleanup > 300 then s.cleanupLocked now windowSeconds else s
  let hits := recent (windowSeconds : ℚ) now ((s.hits key).getD []) ++ [now]
  ({ s with hits := Function.update s.hits key (some hits) }, hits.length)

/-- The number of hits of the key in the window, without recording one. -/
def memCount (s : SharedState Key) (key : Key) (windowSeconds : ℕ) (now : ℚ) :
    SharedState Key × ℕ :=
  let hits := recent (windowSeconds : ℚ) now ((s.hits key).getD [])
  -- the pruned list is stored only if the key is there
  let s' := if (s.hits key).isSome then
      { s with hits := Function.update s.hits key (some hits) } else s
  (s', hits.length)

/-- The stored hits of a key, none if the key is absent. -/
def stored (s : SharedState Key) (k : Key) : List ℚ := (s.hits k).getD []

/-! ### What a call leaves of each key -/

omit [DecidableEq Key] in
theorem stored_cleanupLocked (s : SharedState Key) (now : ℚ) (w : ℕ) (k : Key) :
    (s.cleanupLocked now w).stored k =
      if isStale (now - w * 2) (s.stored k) then [] else s.stored k := by
  cases hk : s.hits k with
  | none => simp [stored, cleanupLocked, hk, isStale]
  | some v =>
    by_cases hv : isStale (now - w * 2) v <;>
      simp [stored, cleanupLocked, hk, hv, Option.filter_some]

/-- The store as a recording call finds it after the periodic cleanup. -/
def cleaned (s : SharedState Key) (now : ℚ) (w : ℕ) : SharedState Key :=
  if now - s.lastCleanup > 300 then s.cleanupLocked now w else s

theorem stored_memIncr (s : SharedState Key) (key : Key) (w : ℕ) (now : ℚ) (k : Key) :
    (s.memIncr key w now).1.stored k =
      if k = key then recent (w : ℚ) now ((s.cleaned now w).stored key) ++ [now]
      else (s.cleaned now w).stored k := by
  by_cases hk : k = key
  · subst hk
    simp [memIncr, stored, cleaned]
  · simp [memIncr, stored, cleaned, hk]

theorem memIncr_snd (s : SharedState Key) (key : Key) (w : ℕ) (now : ℚ) :
    (s.memIncr key w now).2 = (recent (w : ℚ) now ((s.cleaned now w).stored key)).length + 1 := by
  simp [memIncr, stored, cleaned]

theorem stored_memCount (s : SharedState Key) (key : Key) (w : ℕ) (now : ℚ) (k : Key) :
    (s.memCount key w now).1.stored k =
      if k = key then recent (w : ℚ) now (s.stored key) else s.stored k := by
  by_cases hk : k = key
  · subst hk
    cases hkey : s.hits k <;> simp [memCount, stored, hkey]
  · cases hkey : s.hits key <;> simp [memCount, stored, hkey, hk]

theorem memCount_snd (s : SharedState Key) (key : Key) (w : ℕ) (now : ℚ) :
    (s.memCount key w now).2 = (recent (w : ℚ) now (s.stored key)).length := rfl

theorem lastCleanup_memCount (s : SharedState Key) (key : Key) (w : ℕ) (now : ℚ) :
    (s.memCount key w now).1.lastCleanup = s.lastCleanup := by
  simp only [memCount]
  split_ifs <;> rfl

/-! ### Hits that the store still shows -/

section Tracks

variable (W : Key → ℕ)

/-- If a call with the window `w` cleans up at `now`, then every key that it drops, because its
last hit is more than two such windows ago, has no hit in its own window either. -/
def CleanupKeeps (s : SharedState Key) (w : ℕ) (now : ℚ) : Prop :=
  now - s.lastCleanup > 300 → ∀ k t, (s.stored k).getLast? = some t →
    t < now - w * 2 → t ≤ now - W k

variable {W} in
/-- A check of the key that is about to be recorded does not change whether the cleanup keeps: the
cutoff of two windows is behind the window of the key itself. -/
theorem cleanupKeeps_memCount {s : SharedState Key} {key : Key} {t now : ℚ} :
    (s.memCount key (W key) t).1.CleanupKeeps W (W key) now ↔ s.CleanupKeeps W (W key) now := by
  have hself {x : ℚ} (hcut : x < now - W key * 2) : x ≤ now - W key := by
    have hpos : (0 : ℚ) ≤ W key := Nat.cast_nonneg _
    linarith
  simp only [CleanupKeeps, lastCleanup_memCount]
  refine imp_congr_right fun _ => forall_congr' fun k => forall_congr' fun x => ?_
  by_cases hk : k = key
  · subst hk
    exact ⟨fun _ _ => hself, fun _ _ => hself⟩
  · rw [stored_memCount, if_neg hk]

/-- The store shows, through the window of each key that ends at `now`, the hits recorded for the
key. -/
structure Tracks (s : SharedState Key) (now : ℚ) (recorded : Key → List ℚ) : Prop where
  recent_eq : ∀ k, recent (W k : ℚ) now (s.stored k) = recent (W k : ℚ) now (recorded k)
  sorted : ∀ k, (s.stored k).Pairwise (· ≤ ·)
  le_now : ∀ k, ∀ x ∈ s.stored k, x ≤ now

variable {W} {s : SharedState Key} {now t : ℚ} {recorded : Key → List ℚ}

omit [DecidableEq Key] in
theorem tracks_empty (now : ℚ) : Tracks W (empty : SharedState Key) now fun _ => [] :=
  ⟨fun _ => rfl, fun _ => .nil, fun _ _ h => absurd h List.not_mem_nil⟩

namespace Tracks

omit [DecidableEq Key] in
theorem mono (h : Tracks W s now recorded) (hle : now ≤ t) : Tracks W s t recorded where
  recent_eq k := recent_eq_of_le hle (h.recent_eq k)
  sorted := h.sorted
  le_now k x hx := (h.le_now k x hx).trans hle

omit [DecidableEq Key] in
theorem le_of_getLast? (h : Tracks W s now recorded) {k : Key}
    (ht : (s.stored k).getLast? = some t) {x : ℚ} (hx : x ∈ s.stored k) : x ≤ t := by
  obtain ⟨ys, hys⟩ := List.getLast?_eq_some_iff.mp ht
  have hsorted := h.sorted k
  rw [hys] at hx hsorted
  rcases List.mem_append.mp hx with hx | hx
  · exact (List.pairwise_append.mp hsorted).2.2 x hx t (List.mem_singleton_self t)
  · exact (List.mem_singleton.mp hx).le

omit [DecidableEq Key] in
/-- The cleanup keeps what a key shows if the key is not dropped before its own window is over. -/
theorem recent_cleaned (h : Tracks W s now recorded) {w : ℕ} {k : Key}
    (hk : now - s.lastCleanup > 300 → ∀ t, (s.stored k).getLast? = some t →
      t < now - w * 2 → t ≤ now - W k) :
    recent (W k : ℚ) now ((s.cleaned now w).stored k) = recent (W k : ℚ) now (recorded k) := by
  rw [← h.recent_eq k]
  simp only [cleaned]
  split_ifs with hdue
  · rw [stored_cleanupLocked]
    split_ifs with hstale
    · -- a dropped list has no hit in the window of its key
      rw [recent_nil]
      refine (recent_eq_nil fun x hx => ?_).symm
      cases hlast : (s.stored k).getLast? with
      | none =>
        rw [List.getLast?_eq_none_iff.mp hlast] at hx
        exact absurd hx List.not_mem_nil
      | some t =>
        have hcut : t < now - w * 2 := by simpa [isStale, hlast] using hstale
        exact (h.le_of_getLast? hlast hx).trans (hk hdue t hlast hcut)
    · rfl
  · rfl

omit [DecidableEq Key] in
theorem stored_cleaned_sublist (s : SharedState Key) (now : ℚ) (w : ℕ) (k : Key) :
    ((s.cleaned now w).stored k).Sublist (s.stored k) := by
  simp only [cleaned]
  split_ifs
  · rw [stored_cleanupLocked]
    split_ifs
    · exact List.nil_sublist _
    · exact List.Sublist.refl _
  · exact List.Sublist.refl _

omit [DecidableEq Key] in
/-- A key is never dropped by its own caller before its window is over. -/
theorem recent_cleaned_self (h : Tracks W s now recorded) (k : Key) :
    recent (W k : ℚ) now ((s.cleaned now (W k)).stored k) = recent (W k : ℚ) now (recorded k) := by
  refine h.recent_cleaned fun _ t _ hcut => hcut.le.trans ?_
  have hpos : (0 : ℚ) ≤ W k := Nat.cast_nonneg _
  linarith

theorem memCount (h : Tracks W s now recorded) (key : Key) :
    Tracks W (s.memCount key (W key) now).1 now recorded where
  recent_eq k := by
    rw [stored_memCount]
    split_ifs with hk
    · rw [hk, recent_recent le_rfl, h.recent_eq]
    · exact h.recent_eq k
  sorted k := by
    rw [stored_memCount]
    split_ifs with hk
    · exact (h.sorted key).sublist (recent_sublist ..)
    · exact h.sorted k
  le_now k x hx := by
    rw [stored_memCount] at hx
    split_ifs at hx with hk
    · exact h.le_now key x (mem_recent.mp hx).1
    · exact h.le_now k x hx

/-- **One recorded hit.** The store still shows every recorded hit, the new one included, if the
cleanup forgets none. -/
theorem memIncr (h : Tracks W s now recorded) (key : Key) (hkeeps : s.CleanupKeeps W (W key) now) :
    Tracks W (s.memIncr key (W key) now).1 now
      (Function.update recorded key (recorded key ++ [now])) where
  recent_eq k := by
    rw [stored_memIncr]
    split_ifs with hk
    · rw [hk, Function.update_self, recent_append, recent_append, recent_recent le_rfl,
        h.recent_cleaned_self]
    · rw [Function.update_of_ne hk]
      exact h.recent_cleaned fun hdue => hkeeps hdue k
  sorted k := by
    have hsub := stored_cleaned_sublist s now (W key)
    rw [stored_memIncr]
    split_ifs with hk
    · refine List.pairwise_append.mpr ⟨?_, List.pairwise_singleton .., fun x hx y hy => ?_⟩
      · exact (h.sorted key).sublist ((recent_sublist ..).trans (hsub key))
      · rw [List.mem_singleton.mp hy]
        exact h.le_now key x ((hsub key).subset (mem_recent.mp hx).1)
    · exact (h.sorted k).sublist (hsub k)
  le_now k x hx := by
    have hsub := stored_cleaned_sublist s now (W key)
    rw [stored_memIncr] at hx
    split_ifs at hx with hk
    · rcases List.mem_append.mp hx with hx | hx
      · exact h.le_now key x ((hsub key).subset (mem_recent.mp hx).1)
      · exact (List.mem_singleton.mp hx).le
    · exact h.le_now k x ((hsub k).subset hx)

end Tracks

end Tracks

end SharedState

end Nodeglow.RateLimit
