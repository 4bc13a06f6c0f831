import Mathlib.Data.Finset.Card
import Nodeglow.Foundation.Run

/-!
# The fair-share limiter

`FairShareLimiter` is a semaphore whose free slots go round-robin to the waiting tenants. Every
waiting call has a future in the queue of its tenant; the tenants that have a queue stand in one
order. `dispatch` hands free slots to the front of the order, passes over tenants at their cap, and
drops the queues that hold nothing but cancelled futures.

Granting a slot sets the result of a future, and the call that waits for it goes on later. In
between it may be cancelled: it then gives the slot back as soon as it runs. The state therefore
carries, beside the fields of the limiter, the phase of every call of `acquire`. Calls are numbered
in the order in which they are made, and the number of a call names its future as well.

## Main results

* `dispatch_eq` — `dispatch` is the loop of the source.
* `turn_cases` — the three outcomes of one turn.

Source: `backend/services/tenant_jobs.py`, lines 605–682.
-/

namespace Nodeglow.FairShare

inductive FutStatus
  | pending
  | granted
  | cancelled
  deriving DecidableEq, Repr

def FutStatus.done (s : FutStatus) : Bool := s ≠ .pending

/-- Where a call of `acquire` is. -/
inductive Phase
  /-- Not made yet. -/
  | idle
  /-- Suspended on its future. -/
  | waiting
  /-- Cancelled after its future got the result, and not resumed since. -/
  | cancelling
  /-- `acquire` has returned; the caller holds a slot. -/
  | holding
  /-- The slot is released, or the call was cancelled. -/
  | ended
  deriving DecidableEq, Repr

/-- The arguments of the constructor. -/
structure Setup (Tenant : Type) where
  totalArg : ℤ
  capFor : Option (Tenant → ℤ)

namespace Setup

variable {Tenant : Type} (L : Setup Tenant)

def total : ℤ := max 1 L.totalArg

/-- The most slots one tenant may hold. -/
def cap (tenantId : Tenant) : ℤ :=
  let cap := match L.capFor with
    | some capFor => capFor tenantId
    | none => 0
  if 0 < cap then min L.total cap else L.total

end Setup

/-- The limiter, its futures, and the calls made so far. -/
structure State (Tenant : Type) where
  inUse : ℤ
  held : Tenant → ℤ
  /-- The futures that wait for a slot, for each tenant with a queue. -/
  waiters : Tenant → Option (List ℕ)
  /-- The tenants with a queue, round-robin. -/
  order : List Tenant
  fut : ℕ → FutStatus
  /-- The number of calls so far. -/
  calls : ℕ
  tenant : ℕ → Option Tenant
  phase : ℕ → Phase
  /-- The slots granted so far, by tenant and call. -/
  grants : List (Tenant × ℕ)

namespace State

def init (Tenant : Type) : State Tenant where
  inUse := 0
  held _ := 0
  waiters _ := none
  order := []
  fut _ := .pending
  calls := 0
  tenant _ := none
  phase _ := .idle
  grants := []

variable {Tenant : Type} (s : State Tenant)

def queue (t : Tenant) : List ℕ := (s.waiters t).getD []

/-- The call waits, and its future is open. -/
def Live (n : ℕ) : Prop := s.phase n = .waiting ∧ s.fut n = .pending

/-- Some call of the tenant waits. -/
def HasLiveWaiter (t : Tenant) : Prop := ∃ n, s.tenant n = some t ∧ s.Live n

/-- The call was granted a slot that it has not given back. -/
def Owns (n : ℕ) : Prop := s.fut n = .granted ∧ s.phase n ≠ .ended

instance (n : ℕ) : Decidable (s.Owns n) := inferInstanceAs (Decidable (_ ∧ _))

/-- The number of calls that own a slot. -/
def owners : ℕ := ((Finset.range s.calls).filter fun n => s.Owns n).card

end State

variable {Tenant : Type} [DecidableEq Tenant] (L : Setup Tenant)

/-- The number of calls of the tenant that own a slot. -/
def State.owned (s : State Tenant) (t : Tenant) : ℕ :=
  ((Finset.range s.calls).filter fun n => s.tenant n = some t ∧ s.Owns n).card

/-! ### Handing out slots -/

/-- The queue of the tenant without the cancelled futures at its head. -/
def State.pruned (s : State Tenant) (t : Tenant) : List ℕ :=
  (s.queue t).dropWhile fun n => (s.fut n).done

/-- Give a slot to the future `n` at the head of the queue `n :: queue` of the front tenant. -/
def grant (s : State Tenant) (tid : Tenant) (rest : List Tenant) (n : ℕ) (queue : List ℕ) :
    State Tenant :=
  { s with
    inUse := s.inUse + 1
    held := Function.update s.held tid (s.held tid + 1)
    fut := Function.update s.fut n .granted
    waiters := Function.update s.waiters tid (if queue = [] then none else some queue)
    order := if queue = [] then rest else rest ++ [tid]
    grants := s.grants ++ [(tid, n)] }

/-- One turn of the inner loop of `_dispatch`, and whether it granted a slot. -/
def turn (s : State Tenant) : State Tenant × Bool :=
  match s.order with
  | [] => (s, false)
  | tid :: rest =>
      match s.pruned tid with
      | [] => ({ s with order := rest, waiters := Function.update s.waiters tid none }, false)
      | n :: queue =>
          if L.cap tid ≤ s.held tid then
            ({ s with
                order := rest ++ [tid]
                waiters := Function.update s.waiters tid (some (n :: queue)) }, false)
          else (grant s tid rest n queue, true)

/-- The inner loop of `_dispatch`: at most `k` turns, ending with the first grant. -/
def round : ℕ → State Tenant → State Tenant × Bool
  | 0, s => (s, false)
  | k + 1, s => if (turn L s).2 then turn L s else round k (turn L s).1

/-- The outer loop of `_dispatch`, for at most as many grants as there are free slots. -/
def dispatchLoop : ℕ → State Tenant → State Tenant
  | 0, s => s
  | fuel + 1, s =>
      if s.inUse < L.total ∧ s.order ≠ [] then
        let r := round L s.order.length s
        if r.2 then dispatchLoop fuel r.1 else r.1
      else s

/-- `_dispatch`: hand the free slots on. -/
def dispatch (s : State Tenant) : State Tenant :=
  dispatchLoop L (L.total - s.inUse).toNat s

/-! ### Calls -/

inductive Event (Tenant : Type)
  /-- A task calls `acquire`. -/
  | acquire (t : Tenant)
  /-- The task of a suspended call is cancelled. -/
  | cancel (n : ℕ)
  /-- The event loop resumes a suspended call whose future is done. -/
  | resume (n : ℕ)
  /-- The holder of a slot calls `release`. -/
  | release (n : ℕ)
  deriving DecidableEq, Repr

namespace State

variable (s : State Tenant)

/-- A new call puts its future into the queue of its tenant. -/
def enqueue (t : Tenant) : State Tenant :=
  { s with
    waiters := Function.update s.waiters t (some (s.queue t ++ [s.calls]))
    order := if (s.waiters t).isNone then s.order ++ [t] else s.order
    calls := s.calls + 1
    tenant := Function.update s.tenant s.calls (some t)
    phase := Function.update s.phase s.calls .waiting }

/-- `release`, without its `_dispatch`, by the call `n`. -/
def giveBack (n : ℕ) (t : Tenant) : State Tenant :=
  let held := s.held t - 1
  { s with
    inUse := s.inUse - 1
    held := Function.update s.held t (if 0 < held then held else 0)
    phase := Function.update s.phase n .ended }

omit [DecidableEq Tenant] in
def setPhase (n : ℕ) (p : Phase) : State Tenant := { s with phase := Function.update s.phase n p }

omit [DecidableEq Tenant] in
/-- Cancelling a task that waits for an open future cancels the future. -/
def cancelFuture (n : ℕ) : State Tenant :=
  { s.setPhase n .ended with fut := Function.update s.fut n .cancelled }

omit [DecidableEq Tenant] in
/-- Awaiting a future that is done does not suspend: such a call of `acquire` has returned. -/
def returnGranted (n : ℕ) : State Tenant :=
  if s.fut n = .granted then s.setPhase n .holding else s

/-- What an event does before it hands slots on; it has no value where the event cannot happen. -/
def book : Event Tenant → Option (State Tenant)
  | .acquire t => some (s.enqueue t)
  | .cancel n =>
      if s.phase n = .waiting then
        match s.fut n with
        | .pending => some (s.cancelFuture n)
        -- a future with a result cannot be cancelled: the task sees it when it runs
        | .granted => some (s.setPhase n .cancelling)
        | .cancelled => none
      else none
  | .resume n =>
      match s.phase n with
      | .waiting => if s.fut n = .granted then some (s.setPhase n .holding) else none
      | .cancelling => (s.tenant n).map (s.giveBack n)
      | _ => none
  | .release n => if s.phase n = .holding then (s.tenant n).map (s.giveBack n) else none

/-- The event calls `_dispatch`. -/
def dispatches : Event Tenant → Bool
  | .acquire _ | .release _ => true
  | .cancel _ => false
  | .resume n => s.phase n = .cancelling

/-- One event. -/
def step (e : Event Tenant) : Option (State Tenant) := do
  let b ← s.book e
  let d := if s.dispatches e then dispatch L b else b
  match e with
  | .acquire _ => return d.returnGranted s.calls
  | _ => return d

end State

/-- The transition relation of `State.step`. -/
def Step (s : State Tenant) (e : Event Tenant) (s' : State Tenant) : Prop := s.step L e = some s'

/-! ### The loops of `_dispatch` -/

section Dispatch

variable {L} {s : State Tenant}

/-- **The three outcomes of a turn.** A tenant without a live waiter is dropped, a tenant at its cap
goes to the back, and any other is granted a slot. -/
theorem turn_cases {tid : Tenant} {rest : List Tenant} (h : s.order = tid :: rest) :
    (s.pruned tid = [] ∧ turn L s =
        ({ s with order := rest, waiters := Function.update s.waiters tid none }, false)) ∨
      (∃ n queue, s.pruned tid = n :: queue ∧ L.cap tid ≤ s.held tid ∧ turn L s =
        ({ s with
            order := rest ++ [tid]
            waiters := Function.update s.waiters tid (some (n :: queue)) }, false)) ∨
      (∃ n queue, s.pruned tid = n :: queue ∧ s.held tid < L.cap tid ∧
        turn L s = (grant s tid rest n queue, true)) := by
  cases hq : s.pruned tid with
  | nil => exact Or.inl ⟨rfl, by simp [turn, h, hq]⟩
  | cons n queue =>
    by_cases hcap : L.cap tid ≤ s.held tid
    · exact Or.inr (Or.inl ⟨n, queue, rfl, hcap, by simp [turn, h, hq, hcap]⟩)
    · exact Or.inr (Or.inr ⟨n, queue, rfl, lt_of_not_ge hcap, by simp [turn, h, hq, hcap]⟩)

theorem turn_of_order_nil (h : s.order = []) : turn L s = (s, false) := by
  simp [turn, h]

/-- A turn takes a slot exactly if it grants one. -/
theorem turn_inUse (s : State Tenant) :
    (turn L s).1.inUse = s.inUse + if (turn L s).2 then 1 else 0 := by
  cases horder : s.order with
  | nil => simp [turn_of_order_nil horder]
  | cons tid rest =>
    rcases turn_cases (L := L) horder with ⟨-, h⟩ | ⟨n, queue, -, -, h⟩ | ⟨n, queue, -, -, h⟩ <;>
      simp [h, grant]

theorem round_inUse (k : ℕ) (s : State Tenant) :
    (round L k s).1.inUse = s.inUse + if (round L k s).2 then 1 else 0 := by
  induction k generalizing s with
  | zero => simp [round]
  | succ k ih =>
    have hturn := turn_inUse (L := L) s
    by_cases hgrant : (turn L s).2
    · simpa [round, hgrant] using hturn
    · simpa [round, hgrant, ih] using hturn

/-- `_dispatch` is the loop of the source: as long as a slot is free and a tenant waits, a round
that grants a slot is followed by another. -/
theorem dispatch_eq (s : State Tenant) :
    dispatch L s =
      if s.inUse < L.total ∧ s.order ≠ [] then
        if (round L s.order.length s).2 then dispatch L (round L s.order.length s).1
        else (round L s.order.length s).1
      else s := by
  by_cases hfree : s.inUse < L.total
  · obtain ⟨fuel, hfuel⟩ : ∃ fuel, (L.total - s.inUse).toNat = fuel + 1 :=
      ⟨(L.total - s.inUse).toNat - 1, by omega⟩
    rw [dispatch, hfuel, dispatchLoop]
    refine if_congr Iff.rfl ?_ rfl
    have hround := round_inUse (L := L) s.order.length s
    dsimp only
    split_ifs with hgrant
    · rw [if_pos hgrant] at hround
      rw [dispatch, hround, show (L.total - (s.inUse + 1)).toNat = fuel by omega]
    · rfl
  · have hfuel : (L.total - s.inUse).toNat = 0 := by omega
    rw [dispatch, hfuel, dispatchLoop, if_neg (fun h => hfree h.1)]

/-- What every turn with a free slot preserves, a round preserves. -/
theorem round_induction {P : State Tenant → Prop}
    (hturn : ∀ s, s.inUse < L.total → P s → P (turn L s).1) (k : ℕ) {s : State Tenant}
    (hfree : s.inUse < L.total) (h : P s) : P (round L k s).1 := by
  induction k generalizing s with
  | zero => exact h
  | succ k ih =>
    have hP := hturn s hfree h
    by_cases hgrant : (turn L s).2
    · simpa [round, hgrant] using hP
    · have hinUse := turn_inUse (L := L) s
      simp only [round, hgrant, Bool.false_eq_true, if_false, Int.add_zero] at hinUse ⊢
      exact ih (hinUse ▸ hfree) hP

/-- **The induction rule for `_dispatch`.** What every turn with a free slot preserves, `_dispatch`
preserves. -/
theorem dispatch_induction {P : State Tenant → Prop}
    (hturn : ∀ s, s.inUse < L.total → P s → P (turn L s).1) (h : P s) : P (dispatch L s) := by
  rw [dispatch]
  generalize (L.total - s.inUse).toNat = fuel
  induction fuel generalizing s with
  | zero => exact h
  | succ fuel ih =>
    rw [dispatchLoop]
    dsimp only
    split_ifs with hloop hgrant
    · exact ih (round_induction hturn _ hloop.1 h)
    · exact round_induction hturn _ hloop.1 h
    · exact h

/-- Handing out slots runs no caller. -/
theorem turn_frame (s : State Tenant) :
    (turn L s).1.phase = s.phase ∧ (turn L s).1.tenant = s.tenant ∧
      (turn L s).1.calls = s.calls := by
  cases horder : s.order with
  | nil => simp [turn_of_order_nil horder]
  | cons tid rest =>
    rcases turn_cases (L := L) horder with ⟨-, h⟩ | ⟨n, queue, -, -, h⟩ | ⟨n, queue, -, -, h⟩ <;>
      simp [h, grant]

theorem dispatch_frame (s : State Tenant) :
    (dispatch L s).phase = s.phase ∧ (dispatch L s).tenant = s.tenant ∧
      (dispatch L s).calls = s.calls := by
  refine dispatch_induction
    (P := fun u => u.phase = s.phase ∧ u.tenant = s.tenant ∧ u.calls = s.calls)
    (fun u _ hu => ?_) ⟨rfl, rfl, rfl⟩
  obtain ⟨hphase, htenant, hcalls⟩ := turn_frame (L := L) u
  exact ⟨hphase.trans hu.1, htenant.trans hu.2.1, hcalls.trans hu.2.2⟩

end Dispatch

/-- **The four kinds of steps.** A call is made; an open future is cancelled; a call whose future
is done is cancelled or resumed; a slot is given back. -/
theorem step_cases {L : Setup Tenant} {s s' : State Tenant} {e : Event Tenant}
    (h : s.step L e = some s') :
    (∃ t, s.book e = some (s.enqueue t) ∧
      s' = (dispatch L (s.enqueue t)).returnGranted s.calls) ∨
    (∃ n, s.Live n ∧ s.book e = some (s.cancelFuture n) ∧ s' = s.cancelFuture n) ∨
    (∃ n p, s.phase n = .waiting ∧ s.fut n = .granted ∧ (p = .cancelling ∨ p = .holding) ∧
      s.book e = some (s.setPhase n p) ∧ s' = s.setPhase n p) ∨
    (∃ n t, (s.phase n = .cancelling ∨ s.phase n = .holding) ∧ s.tenant n = some t ∧
      s.book e = some (s.giveBack n t) ∧ s' = dispatch L (s.giveBack n t)) := by
  obtain ⟨b, hbook, hs'⟩ := Option.bind_eq_some_iff.mp h
  cases e with
  | acquire t =>
    obtain rfl : s.enqueue t = b := Option.some.inj hbook
    exact Or.inl ⟨t, rfl, (Option.some.inj hs').symm⟩
  | cancel n =>
    obtain rfl : b = s' := Option.some.inj hs'
    have hbook' := hbook
    simp only [State.book, Option.ite_none_right_eq_some] at hbook'
    obtain ⟨hphase, hbook'⟩ := hbook'
    cases hfut : s.fut n with
    | pending =>
      simp only [hfut, Option.some.injEq] at hbook'
      subst hbook'
      exact Or.inr (Or.inl ⟨n, ⟨hphase, hfut⟩, hbook, rfl⟩)
    | granted =>
      simp only [hfut, Option.some.injEq] at hbook'
      subst hbook'
      exact Or.inr (Or.inr (Or.inl ⟨n, _, hphase, hfut, Or.inl rfl, hbook, rfl⟩))
    | cancelled => simp [hfut] at hbook'
  | resume n =>
    have hbook' := hbook
    simp only [State.book] at hbook'
    cases hphase : s.phase n with
    | waiting =>
      simp only [hphase, Option.ite_none_right_eq_some, Option.some.injEq] at hbook'
      obtain ⟨hfut, rfl⟩ := hbook'
      have hs' : s.setPhase n .holding = s' := by
        simpa [State.dispatches, hphase] using hs'
      subst hs'
      exact Or.inr (Or.inr (Or.inl ⟨n, _, hphase, hfut, Or.inr rfl, hbook, rfl⟩))
    | cancelling =>
      simp only [hphase, Option.map_eq_some_iff] at hbook'
      obtain ⟨t, htenant, rfl⟩ := hbook'
      have hs' : dispatch L (s.giveBack n t) = s' := by
        simpa [State.dispatches, hphase] using hs'
      exact Or.inr (Or.inr (Or.inr ⟨n, t, Or.inl hphase, htenant, hbook, hs'.symm⟩))
    | idle => simp [hphase] at hbook'
    | holding => simp [hphase] at hbook'
    | ended => simp [hphase] at hbook'
  | release n =>
    have hbook' := hbook
    simp only [State.book, Option.ite_none_right_eq_some, Option.map_eq_some_iff] at hbook'
    obtain ⟨hphase, t, htenant, rfl⟩ := hbook'
    exact Or.inr (Or.inr (Or.inr
      ⟨n, t, Or.inr hphase, htenant, hbook, (Option.some.inj hs').symm⟩))

end Nodeglow.FairShare
