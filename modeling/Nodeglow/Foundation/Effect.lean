import Mathlib.Data.List.Basic

/-!
# Computations with a state and exceptions

A computation of `EStateM ε σ α` takes a state and ends in a new one, either with a value or with
an exception; what was done to the state before an exception was raised stays done. `Ensures`
says what holds at both ends, and this file gives the rules by which it is derived along a program:
sequencing, raising, catching, loops over a list.

## Main definitions

* `Effect.Ensures` — pre- and postconditions, with one postcondition for each way of ending.
* `Effect.Keeps` — the computation keeps a property of the state.
* `Effect.attempt` — a computation with its exception turned into a value.

## Main results

* `Effect.Ensures.bind`, `Effect.Ensures.tryCatch`, `Effect.Ensures.attempt`,
  `Effect.Ensures.forM` — the rules for the program constructs.
-/

namespace Nodeglow.Effect

variable {ε σ α β : Type}

/-- From every state with `P`, the computation ends with `Q`, or raises an exception with `R`. -/
structure Ensures (P : σ → Prop) (m : EStateM ε σ α) (Q : α → σ → Prop) (R : ε → σ → Prop) :
    Prop where
  run : ∀ s, P s → match m s with
    | .ok a s' => Q a s'
    | .error e s' => R e s'

/-- The computation with its exception as a value; its effects stay. -/
def attempt (m : EStateM ε σ α) : EStateM ε σ (Except ε α) := fun s =>
  match m s with
  | .ok a s' => .ok (.ok a) s'
  | .error e s' => .ok (.error e) s'

/-- Raises the exception where the condition holds. -/
def raiseIf (b : Bool) (e : ε) : EStateM ε σ Unit := if b then throw e else pure ()

namespace Ensures

variable {P P' : σ → Prop} {Q Q' : α → σ → Prop} {R R' : ε → σ → Prop}

theorem mono {m : EStateM ε σ α} (h : Ensures P m Q R) (hP : ∀ s, P' s → P s)
    (hQ : ∀ a s, Q a s → Q' a s) (hR : ∀ e s, R e s → R' e s) : Ensures P' m Q' R' := by
  refine ⟨fun s hs => ?_⟩
  have hm := h.run s (hP s hs)
  cases hms : m s with
  | ok a s' => simp only [hms] at hm ⊢; exact hQ a s' hm
  | error e s' => simp only [hms] at hm ⊢; exact hR e s' hm

/-- A stronger precondition. -/
theorem pre {m : EStateM ε σ α} (h : Ensures P m Q R) (hP : ∀ s, P' s → P s) :
    Ensures P' m Q R :=
  ⟨fun s hs => h.run s (hP s hs)⟩

/-- A weaker postcondition. -/
theorem post {m : EStateM ε σ α} (h : Ensures P m Q R) (hQ : ∀ a s, Q a s → Q' a s) :
    Ensures P m Q' R :=
  h.mono (fun _ h => h) hQ fun _ _ h => h

/-- A weaker postcondition for the exceptions. -/
theorem raises {m : EStateM ε σ α} (h : Ensures P m Q R) (hR : ∀ e s, R e s → R' e s) :
    Ensures P m Q R' :=
  h.mono (fun _ h => h) (fun _ _ h => h) hR

/-- A fact that the precondition gives can be used. -/
theorem of_pre {m : EStateM ε σ α} {p : Prop} (hp : ∀ s, P s → p) (h : p → Ensures P m Q R) :
    Ensures P m Q R :=
  ⟨fun s hs => (h (hp s hs)).run s hs⟩

/-- The state in which the computation starts can be named. -/
theorem of_start {m : EStateM ε σ α} (h : ∀ s, P s → Ensures (fun s' => s' = s) m Q R) :
    Ensures P m Q R :=
  ⟨fun s hs => (h s hs).run s rfl⟩

theorem pure {a : α} (h : ∀ s, P s → Q a s) : Ensures P (Pure.pure a : EStateM ε σ α) Q R :=
  ⟨h⟩

theorem throw {e : ε} (h : ∀ s, P s → R e s) :
    Ensures P (MonadExcept.throw e : EStateM ε σ α) Q R :=
  ⟨h⟩

theorem update {f : σ → σ} {Q : PUnit → σ → Prop} (h : ∀ s, P s → Q ⟨⟩ (f s)) :
    Ensures P (modify f : EStateM ε σ PUnit) Q R :=
  ⟨h⟩

/-- **Sequencing.** An exception of the first computation ends both. -/
theorem bind {m : EStateM ε σ α} {f : α → EStateM ε σ β} {S : β → σ → Prop}
    (hm : Ensures P m Q R) (hf : ∀ a, Ensures (Q a) (f a) S R) : Ensures P (m >>= f) S R := by
  refine ⟨fun s hs => ?_⟩
  have h := hm.run s hs
  change match EStateM.bind m f s with | .ok a s' => S a s' | .error e s' => R e s'
  rw [EStateM.bind]
  cases hms : m s with
  | ok a s' => simp only [hms] at h ⊢; exact (hf a).run s' h
  | error e s' => simp only [hms] at h ⊢; exact h

/-- **Catching.** The handler runs in the state the exception left. -/
theorem tryCatch {m : EStateM ε σ α} {handle : ε → EStateM ε σ α} (hm : Ensures P m Q R)
    (hhandle : ∀ e, Ensures (R e) (handle e) Q R') :
    Ensures P (MonadExcept.tryCatch m handle) Q R' := by
  refine ⟨fun s hs => ?_⟩
  have h := hm.run s hs
  change match EStateM.tryCatch m handle s with | .ok a s' => Q a s' | .error e s' => R' e s'
  rw [EStateM.tryCatch]
  cases hms : m s with
  | ok a s' => simp only [hms] at h ⊢; exact h
  | error e s' => simp only [hms] at h ⊢; exact (hhandle e).run s' h

theorem attempt {m : EStateM ε σ α} {S : Except ε α → σ → Prop} (hm : Ensures P m Q R)
    (hok : ∀ a s, Q a s → S (.ok a) s) (herr : ∀ e s, R e s → S (.error e) s) :
    Ensures P (attempt m) S R' := by
  refine ⟨fun s hs => ?_⟩
  have h := hm.run s hs
  rw [Effect.attempt]
  cases hms : m s with
  | ok a s' => simp only [hms] at h ⊢; exact hok a s' h
  | error e s' => simp only [hms] at h ⊢; exact herr e s' h

/-- A check that goes on in the state it was made in. -/
theorem raiseIf_bind {b : Bool} {e : ε} {f : Unit → EStateM ε σ β} {S : β → σ → Prop}
    (hthrow : b = true → ∀ s, P s → R e s) (hf : b = false → Ensures P (f ()) S R) :
    Ensures P (Effect.raiseIf b e >>= f) S R := by
  cases b with
  | true => exact ⟨hthrow rfl⟩
  | false => exact ⟨(hf rfl).run⟩

/-- A computation that asks for the state and goes on with it. -/
theorem get_bind {f : σ → EStateM ε σ β} {S : β → σ → Prop}
    (h : ∀ s, P s → Ensures (fun s' => s' = s ∧ P s') (f s) S R) :
    Ensures P ((MonadState.get : EStateM ε σ σ) >>= f) S R :=
  ⟨fun s hs => (h s hs).run s ⟨rfl, hs⟩⟩

/-- **Loops.** What holds of the items done and those to come is carried from one turn to the
next. -/
theorem forM {l : List α} {f : α → EStateM ε σ PUnit} {I : List α → List α → σ → Prop}
    (hbody : ∀ front a back, l = front ++ a :: back →
      Ensures (I front (a :: back)) (f a) (fun _ => I (front ++ [a]) back) R) :
    Ensures (I [] l) (l.forM f) (fun _ => I l []) R := by
  suffices h : ∀ back front, l = front ++ back →
      Ensures (I front back) (back.forM f) (fun _ => I l []) R from h l [] rfl
  intro back
  induction back with
  | nil =>
    intro front hl
    rw [List.append_nil] at hl
    rw [hl]
    exact .pure fun _ h => h
  | cons a back ih =>
    intro front hl
    change Ensures (I front (a :: back)) (f a >>= fun _ => back.forM f) _ R
    exact (hbody front a back hl).bind fun _ => ih (front ++ [a]) (by rw [hl]; simp)

end Ensures

/-- The computation keeps a property of the state, however it ends. -/
abbrev Keeps (I : σ → Prop) (m : EStateM ε σ α) : Prop := Ensures I m (fun _ => I) fun _ => I

namespace Keeps

variable {I : σ → Prop}

theorem bind {m : EStateM ε σ α} {f : α → EStateM ε σ β} (hm : Keeps I m)
    (hf : ∀ a, Keeps I (f a)) : Keeps I (m >>= f) :=
  Ensures.bind hm hf

theorem pure (a : α) : Keeps I (Pure.pure a : EStateM ε σ α) := Ensures.pure fun _ h => h

theorem throw (e : ε) : Keeps I (MonadExcept.throw e : EStateM ε σ α) :=
  Ensures.throw fun _ h => h

theorem get : Keeps I (MonadState.get : EStateM ε σ σ) := ⟨fun _ h => h⟩

theorem raiseIf (b : Bool) (e : ε) : Keeps I (Effect.raiseIf b e) := by
  cases b with
  | true => exact .throw e
  | false => exact .pure ()

theorem update {f : σ → σ} (h : ∀ s, I s → I (f s)) :
    Keeps I (modify f : EStateM ε σ PUnit) :=
  Ensures.update h

theorem tryCatch {m : EStateM ε σ α} {handle : ε → EStateM ε σ α} (hm : Keeps I m)
    (hhandle : ∀ e, Keeps I (handle e)) : Keeps I (MonadExcept.tryCatch m handle) :=
  Ensures.tryCatch hm hhandle

theorem attempt {m : EStateM ε σ α} (hm : Keeps I m) : Keeps I (Effect.attempt m) :=
  Ensures.attempt hm (fun _ _ h => h) fun _ _ h => h

end Keeps

end Nodeglow.Effect
