import Mathlib.Data.Option.Basic
import Mathlib.Order.Lattice

/-!
# Leases that run out

A lease is held by one party until a time. Any number of parties try to acquire it: one that finds
it free, run out or its own gets it until a later time, any other is refused. A party learns of a
lease only by acquiring it, and of its end not at all, so what a lease promises is a statement about
times: as long as it has not run out, it is held by the party that acquired it last
(`Lease.holderAt_anti`, `Lease.acquire_cases`).

## Main definitions

* `Lease`, `Lease.holderAt` — a lease, and who holds it at a time.
* `Lease.acquire` — acquire or renew, in one step.
-/

namespace Nodeglow

variable {ι τ : Type*}

structure Lease (ι τ : Type*) where
  holder : ι
  expiry : τ
  deriving DecidableEq, Repr

namespace Lease

variable [LinearOrder τ] {lease : Option (Lease ι τ)} {i j : ι} {t now expiry : τ}

/-- The holder at a time. A lease that has run out has none. -/
def holderAt (lease : Option (Lease ι τ)) (now : τ) : Option ι :=
  lease.bind fun l => if now < l.expiry then some l.holder else none

theorem holderAt_eq_some :
    holderAt lease now = some i ↔ ∃ l, lease = some l ∧ now < l.expiry ∧ l.holder = i := by
  cases lease with
  | none => simp [holderAt]
  | some l => simp [holderAt]

/-- Whoever holds a lease at a time has held it before, as far as this lease goes. -/
theorem holderAt_anti (ht : t ≤ now) (h : holderAt lease now = some i) :
    holderAt lease t = some i := by
  obtain ⟨l, rfl, hnow, rfl⟩ := holderAt_eq_some.mp h
  exact holderAt_eq_some.mpr ⟨l, rfl, lt_of_le_of_lt ht hnow, rfl⟩

/-- Acquire or renew a lease until `expiry`: it is granted if it is free or one's own. -/
def acquire [DecidableEq ι] (lease : Option (Lease ι τ)) (i : ι) (now expiry : τ) :
    Option (Lease ι τ) × Bool :=
  match holderAt lease now with
  | none => (some ⟨i, expiry⟩, true)
  | some j => if j = i then (some ⟨i, expiry⟩, true) else (lease, false)

/-- **Granted or refused.** -/
theorem acquire_cases [DecidableEq ι] (lease : Option (Lease ι τ)) (i : ι) (now expiry : τ) :
    (acquire lease i now expiry = (some ⟨i, expiry⟩, true) ∧
      (holderAt lease now = none ∨ holderAt lease now = some i)) ∨
    (acquire lease i now expiry = (lease, false) ∧ ∃ j, j ≠ i ∧ holderAt lease now = some j) := by
  unfold acquire
  cases hholder : holderAt lease now with
  | none => simp
  | some j =>
    by_cases hj : j = i
    · simp [hj]
    · simp [hj]

end Lease

end Nodeglow
