import Nodeglow.Backend.RateLimit.SharedState
import Nodeglow.Foundation.Run

/-!
# Rate limiters that share one store

Every limiter owns keys of its own, and calls the store with the same limit and window for each of
them (`Settings`). A run of the process is any interleaving of plain calls and of limiter checks on
any keys, at times that never decrease (`Server.Step`). The server carries, beside the store, the
hits that were recorded and the requests that a limiter admitted.

The cleanup of the store takes the window of the limiter that happens to trigger it for the window
of everyone. It can therefore drop a key of a limiter with a longer window while hits of that window
are in it. `Server.Keeps` says of one call that it does no such thing: in every run of calls that
keep, all numbers returned are exact, and limiters admit at most their limit in any window
(`Server.exact_of_keeps`).

## Main results

* `Server.Exact.step`, `Server.exact_of_keeps`.
* `Server.failedAuth_count_ne` — a run of the deployed limiters in which a number is wrong.

Source: `backend/ratelimit.py`, lines 19–85 and 97–123.
-/

namespace Nodeglow.RateLimit

open SlidingWindow

section Checks

variable {Key : Type} [DecidableEq Key]

/-- `RateLimiter.is_limited`: check, then record unless the key is at its limit. The clock is read
once by the check and once by the recording call. -/
def isLimited (s : SharedState Key) (key : Key) (maxRequests windowSeconds : ℕ) (t₁ t₂ : ℚ) :
    SharedState Key × Bool :=
  let c := s.memCount key windowSeconds t₁
  if maxRequests ≤ c.2 then (c.1, true)
  else ((c.1.memIncr key windowSeconds t₂).1, false)

end Checks

/-- The limit and the window of the limiter that owns a key. -/
structure Settings where
  maxRequests : ℕ
  windowSeconds : ℕ
  deriving DecidableEq, Repr

/-- The limiter of failed logins. -/
def failedAuthSettings : Settings := ⟨20, 300⟩

def failedAuthKey (ip : String) : String := "failed_auth:" ++ ip

/-- The key of a route handler behind the `rate_limit` decorator. -/
def routeKey (module name ip : String) : String := module ++ "." ++ name ++ ":" ++ ip

/-- Too many recent failed logins from this address. -/
def failedAuthThrottled (s : SharedState String) (ip : String) (t₁ t₂ : ℚ) :
    SharedState String × Bool :=
  isLimited s (failedAuthKey ip) failedAuthSettings.maxRequests failedAuthSettings.windowSeconds
    t₁ t₂

/-- A call against the store, with the times at which it reads the clock. -/
inductive Call
  | incr (key : String) (t : ℚ)
  | count (key : String) (t : ℚ)
  | isLimited (key : String) (t₁ t₂ : ℚ)
  deriving DecidableEq, Repr

namespace Call

def start : Call → ℚ
  | incr _ t | count _ t | isLimited _ t _ => t

def finish : Call → ℚ
  | incr _ t | count _ t | isLimited _ _ t => t

end Call

/-- The store with the time of the last call, the hits recorded so far, and the times at which a
limiter admitted a request. -/
structure Server where
  mem : SharedState String
  now : ℚ
  recorded : String → List ℚ
  admitted : String → List ℚ

namespace Server

/-- A process that starts when its clock shows `t₀`. -/
def init (t₀ : ℚ) : Server := ⟨.empty, t₀, fun _ => [], fun _ => []⟩

variable (cfg : String → Settings)

/-- The state after a call. -/
def apply (s : Server) : Call → Server
  | .incr k t =>
      { s with
        mem := (s.mem.memIncr k (cfg k).windowSeconds t).1
        now := t
        recorded := Function.update s.recorded k (s.recorded k ++ [t]) }
  | .count k t => { s with mem := (s.mem.memCount k (cfg k).windowSeconds t).1, now := t }
  | .isLimited k t₁ t₂ =>
      let r := RateLimit.isLimited s.mem k (cfg k).maxRequests (cfg k).windowSeconds t₁ t₂
      if r.2 then { s with mem := r.1, now := t₂ }
      else
        { mem := r.1
          now := t₂
          recorded := Function.update s.recorded k (s.recorded k ++ [t₂])
          admitted := Function.update s.admitted k (s.admitted k ++ [t₂]) }

/-- A call can follow if its clock readings do not go back. -/
def Step (s : Server) (c : Call) (s' : Server) : Prop :=
  s.now ≤ c.start ∧ c.start ≤ c.finish ∧ s' = s.apply cfg c

/-- The window of the limiter that owns a key. -/
def window (k : String) : ℕ := (cfg k).windowSeconds

/-- The number of hits recorded for the key in its last window before `t`. -/
def hitsInWindow (s : Server) (k : String) (t : ℚ) : ℕ :=
  (recent (window cfg k : ℚ) t (s.recorded k)).length

/-- If the call records a hit and cleans up, it drops no key that has a hit in its own window. -/
def Keeps (s : Server) : Call → Prop
  | .incr k t => s.mem.CleanupKeeps (window cfg) (window cfg k) t
  | .count _ _ => True
  | .isLimited k t₁ t₂ =>
      (recent (window cfg k : ℚ) t₁ (s.mem.stored k)).length < (cfg k).maxRequests →
        s.mem.CleanupKeeps (window cfg) (window cfg k) t₂

/-! ### The invariant -/

/-- The store shows every recorded hit, and no window of a key holds more admissions than its
limit. -/
structure Exact (s : Server) : Prop where
  tracks : s.mem.Tracks (window cfg) s.now s.recorded
  admitted_sublist : ∀ k, (s.admitted k).Sublist (s.recorded k)
  admitted_le : ∀ k a, (windowFrom (window cfg k : ℚ) a (s.admitted k)).length ≤ (cfg k).maxRequests

variable {cfg}

/-- A check at the limit records nothing. -/
theorem apply_isLimited_of_le {s : Server} {k : String} {t₁ t₂ : ℚ}
    (h : (cfg k).maxRequests ≤ (s.mem.memCount k (window cfg k) t₁).2) :
    s.apply cfg (.isLimited k t₁ t₂) =
      { s with mem := (s.mem.memCount k (window cfg k) t₁).1, now := t₂ } := by
  simp only [window] at h
  simp [apply, RateLimit.isLimited, window, h]

/-- A check below the limit admits and records. -/
theorem apply_isLimited_of_lt {s : Server} {k : String} {t₁ t₂ : ℚ}
    (h : (s.mem.memCount k (window cfg k) t₁).2 < (cfg k).maxRequests) :
    s.apply cfg (.isLimited k t₁ t₂) =
      { mem := ((s.mem.memCount k (window cfg k) t₁).1.memIncr k (window cfg k) t₂).1
        now := t₂
        recorded := Function.update s.recorded k (s.recorded k ++ [t₂])
        admitted := Function.update s.admitted k (s.admitted k ++ [t₂]) } := by
  simp only [window] at h
  simp [apply, RateLimit.isLimited, window, Nat.not_le.mpr h]

theorem exact_init (t₀ : ℚ) : Exact cfg (init t₀) where
  tracks := SharedState.tracks_empty t₀
  admitted_sublist _ := .slnil
  admitted_le _ _ := Nat.zero_le _

namespace Exact

variable {s : Server}

theorem memCount_eq (h : Exact cfg s) {k : String} {t : ℚ} (ht : s.now ≤ t) :
    (s.mem.memCount k (window cfg k) t).2 = s.hitsInWindow cfg k t := by
  rw [SharedState.memCount_snd, hitsInWindow, (h.tracks.mono ht).recent_eq]

theorem memIncr_eq (h : Exact cfg s) {k : String} {t : ℚ} (ht : s.now ≤ t) :
    (s.mem.memIncr k (window cfg k) t).2 = s.hitsInWindow cfg k t + 1 := by
  rw [SharedState.memIncr_snd, hitsInWindow, (h.tracks.mono ht).recent_cleaned_self]

theorem isLimited_eq (h : Exact cfg s) (k : String) {t₁ : ℚ} (t₂ : ℚ) (ht : s.now ≤ t₁) :
    (RateLimit.isLimited s.mem k (cfg k).maxRequests (window cfg k) t₁ t₂).2 =
      decide ((cfg k).maxRequests ≤ s.hitsInWindow cfg k t₁) := by
  rw [← h.memCount_eq ht]
  simp only [RateLimit.isLimited]
  split_ifs with hfull <;> simp [hfull]

/-- Recording an admission within the limit keeps every window of the key at its limit. -/
theorem length_windowFrom_update_le (h : Exact cfg s) {k : String} {t₁ t₂ : ℚ} (htt : t₁ ≤ t₂)
    (hlt : s.hitsInWindow cfg k t₁ < (cfg k).maxRequests) (k' : String) (a : ℚ) :
    (windowFrom (window cfg k' : ℚ) a
      (Function.update s.admitted k (s.admitted k ++ [t₂]) k')).length ≤ (cfg k').maxRequests := by
  by_cases hk : k' = k
  · rw [hk, Function.update_self]
    exact length_windowFrom_append_singleton_le (h.admitted_sublist k) htt hlt (h.admitted_le k) a
  · rw [Function.update_of_ne hk]
    exact h.admitted_le k' a

theorem update_sublist_update (h : Exact cfg s) (k : String) (t : ℚ) (k' : String) :
    (Function.update s.admitted k (s.admitted k ++ [t]) k').Sublist
      (Function.update s.recorded k (s.recorded k ++ [t]) k') := by
  by_cases hk : k' = k
  · rw [hk, Function.update_self, Function.update_self]
    exact (h.admitted_sublist k).append (.refl _)
  · rw [Function.update_of_ne hk, Function.update_of_ne hk]
    exact h.admitted_sublist k'

theorem sublist_update (h : Exact cfg s) (k : String) (t : ℚ) (k' : String) :
    (s.admitted k').Sublist (Function.update s.recorded k (s.recorded k ++ [t]) k') := by
  by_cases hk : k' = k
  · rw [hk, Function.update_self]
    exact (h.admitted_sublist k).trans (List.sublist_append_left ..)
  · rw [Function.update_of_ne hk]
    exact h.admitted_sublist k'

/-- **One call.** A call that keeps what the other keys still show preserves the invariant. -/
theorem step {c : Call} {s' : Server} (h : Exact cfg s) (hkeeps : s.Keeps cfg c)
    (hstep : s.Step cfg c s') : Exact cfg s' := by
  obtain ⟨hnow, htt, rfl⟩ := hstep
  cases c with
  | incr k t =>
    exact ⟨(h.tracks.mono hnow).memIncr k hkeeps, h.sublist_update k t, h.admitted_le⟩
  | count k t =>
    exact ⟨(h.tracks.mono hnow).memCount k, h.admitted_sublist, h.admitted_le⟩
  | isLimited k t₁ t₂ =>
    have hcount : s.mem.Tracks (window cfg) t₁ s.recorded := h.tracks.mono hnow
    by_cases hfull : (cfg k).maxRequests ≤ (s.mem.memCount k (window cfg k) t₁).2
    · rw [apply_isLimited_of_le hfull]
      exact ⟨(hcount.memCount k).mono htt, h.admitted_sublist, h.admitted_le⟩
    · have hlt := lt_of_not_ge hfull
      rw [apply_isLimited_of_lt hlt]
      refine ⟨((hcount.memCount k).mono htt).memIncr k ?_, ?_, ?_⟩
      · exact SharedState.cleanupKeeps_memCount.mpr (hkeeps hlt)
      · exact h.update_sublist_update k t₂
      · exact h.length_windowFrom_update_le htt (h.memCount_eq hnow ▸ hlt)

end Exact

/-! ### Runs -/

/-- **Whole runs.** In every state that a run of keeping calls reaches, every number returned for a
key is the number of hits recorded for it in its window, whatever was called for other keys in
between; a limiter has admitted at most its limit in every window; and the failed-login limiter
decides on every failure of its window. -/
theorem exact_of_keeps {t₀ : ℚ} {l : List Call} {s : Server}
    (hrun : Run (Guarded (Keeps cfg) (Step cfg)) (init t₀) l s) :
    (∀ k t, s.now ≤ t → (s.mem.memCount k (window cfg k) t).2 = s.hitsInWindow cfg k t) ∧
    (∀ k t, s.now ≤ t → (s.mem.memIncr k (window cfg k) t).2 = s.hitsInWindow cfg k t + 1) ∧
    (∀ k a, (windowFrom (window cfg k : ℚ) a (s.admitted k)).length ≤ (cfg k).maxRequests) ∧
    (∀ ip t₁ t₂, cfg (failedAuthKey ip) = failedAuthSettings → s.now ≤ t₁ →
      (failedAuthThrottled s.mem ip t₁ t₂).2 =
        decide (20 ≤ s.hitsInWindow cfg (failedAuthKey ip) t₁)) := by
  have h : Exact cfg s :=
    hrun.invariant (fun _ _ _ hinv hstep => hinv.step hstep.1 hstep.2) (exact_init t₀)
  refine ⟨fun k t => h.memCount_eq, fun k t => h.memIncr_eq, h.admitted_le, ?_⟩
  intro ip t₁ t₂ hcfg hnow
  have heq := h.isLimited_eq (failedAuthKey ip) t₂ hnow
  rwa [window, hcfg] at heq

/-! ### The deployed limiters -/

/-- The settings of one address: failed logins, and the login route for every other key. -/
def sampleSettings (k : String) : Settings :=
  if k = failedAuthKey "203.0.113.7" then failedAuthSettings else ⟨10, 60⟩

/-- Without a cleanup in between, the failed login is still counted 200 s later. -/
theorem exact_of_keeps_one_failure :
    (((init 900).apply sampleSettings
      (.isLimited (failedAuthKey "203.0.113.7") 1100 1100)).mem.memCount
        (failedAuthKey "203.0.113.7") (window sampleSettings (failedAuthKey "203.0.113.7"))
        1300).2 = 1 := by
  have hkeeps : Keeps sampleSettings (init 900)
      (.isLimited (failedAuthKey "203.0.113.7") 1100 1100) :=
    fun _ _ k t hlast => absurd hlast (by simp [init, SharedState.empty, SharedState.stored])
  have hrun : Run (Guarded (Keeps sampleSettings) (Step sampleSettings)) (init 900)
      [.isLimited (failedAuthKey "203.0.113.7") 1100 1100]
      ((init 900).apply sampleSettings (.isLimited (failedAuthKey "203.0.113.7") 1100 1100)) :=
    .single ⟨hkeeps, by decide +kernel, by decide +kernel, rfl⟩
  refine ((exact_of_keeps hrun).1 _ _ (by decide +kernel)).trans ?_
  decide +kernel

/-- A login from another address triggers the cleanup with its window of 60 s and drops the failed
login of 201 s before, which is in the window of 300 s. -/
theorem failedAuth_count_ne :
    ∃ (l : List Call) (s : Server), Run (Step sampleSettings) (init 900) l s ∧ s.now ≤ 1302 ∧
      (s.mem.memCount (failedAuthKey "203.0.113.7")
          (window sampleSettings (failedAuthKey "203.0.113.7")) 1302).2 ≠
        s.hitsInWindow sampleSettings (failedAuthKey "203.0.113.7") 1302 := by
  refine ⟨[.isLimited (routeKey "routers.auth" "login" "198.51.100.4") 1000 1000,
    .isLimited (failedAuthKey "203.0.113.7") 1100 1100,
    .isLimited (routeKey "routers.auth" "login" "198.51.100.4") 1301 1301], _,
    .cons ⟨by decide +kernel, by decide +kernel, rfl⟩
      (.cons ⟨by decide +kernel, by decide +kernel, rfl⟩
        (.cons ⟨by decide +kernel, by decide +kernel, rfl⟩ (.nil _))), ?_, ?_⟩
  · decide +kernel
  · decide +kernel

end Server

end Nodeglow.RateLimit
