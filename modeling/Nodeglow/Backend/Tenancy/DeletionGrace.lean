import Mathlib.Tactic.Linarith
import Nodeglow.Foundation.ReadCommitted
import Nodeglow.Foundation.Run
import Nodeglow.Foundation.Text

/-!
# Scheduled deletion, its cancellation, and the purge

A tenant's deletion is scheduled, may be cancelled during a grace period, and is carried out by a
job that purges the tenants that are due. Each of these reads the tenant's row, decides on what it
has read, and writes the columns it has changed in the transaction that it then commits. The
transactions interleave at READ COMMITTED: between the read and the write another one may commit.

The purge decides on the row once. A cancellation that commits between that read and the write of
`purge_started_at` is confirmed to the operator and purged all the same
(`World.purged_after_cancel`); one that has read the row before the purge has started commits during
the purge. If a purge writes its start only to a row that is still due, and a cancellation only to a
row whose purge has not started (`World.Undisturbed`), a cancelled deletion is never purged
(`World.cancellations_respected`).

## Main results

* `World.Inv.step`, `World.cancellations_respected` — one event, and whole runs.

Source: `ee/backend/nodeglow_ee/tenancy/lifecycle.py`, lines 345–395 and 461–468;
`ee/backend/nodeglow_ee/tenancy/purge.py`, lines 198–248;
`ee/backend/nodeglow_ee/tenancy/jobs.py`, lines 26–44.
-/

namespace Nodeglow.Tenancy.Deletion

/-! ### The tenant's row -/

inductive Status
  | active
  | suspended
  | deleting
  deriving DecidableEq, Repr

def Status.text : Status → String
  | .active => "active"
  | .suspended => "suspended"
  | .deleting => "deleting"

/-- The columns that the lifecycle reads and writes. Times are in seconds. -/
structure Tenant where
  id : ℤ
  name : String
  status : Status
  suspendedAt : Option ℚ
  deleteAfter : Option ℚ
  deletionRequestedAt : Option ℚ
  deletionRequestedBy : Option ℤ
  purgeStartedAt : Option ℚ
  deriving DecidableEq, Repr

/-- `DEFAULT_TENANT_ID`. -/
def defaultTenantId : ℤ := 1

/-- `DELETION_GRACE_DAYS`, in seconds. -/
def deletionGrace : ℚ := 30 * 86400

/-- A column as a flush writes it: only if it is not what was loaded. -/
def assign {β : Type} [DecidableEq β] (loaded new current : β) : β :=
  if new = loaded then current else new

/-- The `UPDATE` of a flush: the columns that have changed since the row was loaded. -/
def Tenant.flush (loaded new current : Tenant) : Tenant where
  id := assign loaded.id new.id current.id
  name := assign loaded.name new.name current.name
  status := assign loaded.status new.status current.status
  suspendedAt := assign loaded.suspendedAt new.suspendedAt current.suspendedAt
  deleteAfter := assign loaded.deleteAfter new.deleteAfter current.deleteAfter
  deletionRequestedAt :=
    assign loaded.deletionRequestedAt new.deletionRequestedAt current.deletionRequestedAt
  deletionRequestedBy :=
    assign loaded.deletionRequestedBy new.deletionRequestedBy current.deletionRequestedBy
  purgeStartedAt := assign loaded.purgeStartedAt new.purgeStartedAt current.purgeStartedAt

/-- Deletion is due: what `due_for_purge` selects and `purge_tenant` checks. -/
def Tenant.isDue (t : Tenant) (now : ℚ) : Bool :=
  t.id ≠ defaultTenantId && t.status = .deleting && t.deleteAfter.any (· ≤ now)

inductive Action
  | scheduleDeletion (confirm : String) (actor : Option ℤ)
  | cancelDeletion
  | resume
  /-- The start of `purge_tenant`, at the time it was called. -/
  | purge (calledAt : ℚ)
  deriving DecidableEq, Repr

/-- What an action makes of the row it has loaded, or why it refuses. -/
def Action.change (now : ℚ) (t : Tenant) : Action → Except String Tenant
  | .scheduleDeletion confirm actor =>
      if t.id = defaultTenantId then .error "The default tenant cannot be deleted."
      else if t.status = .deleting then .error "The tenant is already scheduled for deletion."
      else if Text.strip confirm ≠ t.name then
        .error "Type the tenant's name exactly to confirm the deletion."
      else
        .ok { t with
          status := .deleting
          suspendedAt := t.suspendedAt <|> some now
          deleteAfter := some (now + deletionGrace)
          deletionRequestedAt := some now
          deletionRequestedBy := actor }
  | .cancelDeletion =>
      if t.status ≠ .deleting then .error "The tenant is not scheduled for deletion."
      else if t.purgeStartedAt ≠ none then .error "The purge has started; it cannot be cancelled."
      else
        .ok { t with
          status := .suspended
          deleteAfter := none
          deletionRequestedAt := none
          deletionRequestedBy := none }
  | .resume =>
      if t.status ≠ .suspended then
        .error ("The tenant is " ++ t.status.text ++ "; only a suspended tenant can be resumed.")
      else .ok { t with status := .active, suspendedAt := none }
  | .purge calledAt =>
      if t.id = defaultTenantId then .error "the default tenant is never purged"
      else if !t.isDue calledAt then
        .error ("tenant " ++ toString t.id ++ " is not due for purge")
      else .ok { t with purgeStartedAt := t.purgeStartedAt <|> some calledAt }

/-! ### Transactions -/

/-- What has been committed for the tenant, and what has been destroyed. -/
inductive Entry
  | scheduled (deleteAfter : ℚ)
  | cancelled
  | resumed
  | purgeStarted
  /-- A data key is destroyed, or rows are deleted. -/
  | destroyed (at' : ℚ)
  deriving DecidableEq, Repr

/-- Where a request or a run of the purge job is. -/
inductive Stage
  | idle
  /-- The job has selected the tenant. -/
  | selected
  | loaded (action : Action) (row : Tenant) (loadedAt : ℚ)
  /-- The row is written, and locked until the commit. -/
  | updated (action : Action) (new : Tenant)
  /-- The start of the purge is committed; it destroys keys and deletes rows. -/
  | purging
  | ended
  deriving DecidableEq, Repr

structure World where
  clock : ℚ
  tenant : Nodeglow.Row ℕ (Option Tenant)
  stages : ℕ → Stage
  /-- The newest entry is the first. -/
  history : List Entry

inductive Event
  | elapse (seconds : ℚ)
  /-- `due_for_purge`. -/
  | select (k : ℕ)
  | load (k : ℕ) (action : Action)
  /-- The checks and the flush of an action, at the time it took for now. -/
  | update (k : ℕ) (now : ℚ)
  | commit (k : ℕ)
  /-- A request or a run ends early: refused, failed or crashed. -/
  | abort (k : ℕ)
  /-- A commit of the purge after its start: the crypto-shred, or deleted rows. -/
  | destroy (k : ℕ)
  /-- The last commit of the purge, with the tenant's row. -/
  | finish (k : ℕ)
  deriving DecidableEq, Repr

/-- The entry of a commit. -/
def Action.entry (new : Tenant) : Action → Entry
  | .scheduleDeletion _ _ => .scheduled (new.deleteAfter.getD 0)
  | .cancelDeletion => .cancelled
  | .resume => .resumed
  | .purge _ => .purgeStarted

namespace World

variable (w : World)

def init (clock : ℚ) (tenant : Tenant) : World where
  clock := clock
  tenant := .stored (some tenant)
  stages _ := .idle
  history := []

def setStage (k : ℕ) (stage : Stage) : World :=
  { w with stages := Function.update w.stages k stage }

/-- The stage after the commit of an action. -/
def stageAfter : Action → Stage
  | .purge _ => .purging
  | _ => .ended

/-- One event; it has no value where the event cannot happen. -/
def step : Event → Option World
  | .elapse seconds => if 0 ≤ seconds then some { w with clock := w.clock + seconds } else none
  | .select k =>
      match w.stages k, w.tenant.read k with
      | .idle, some t => if t.isDue w.clock then some (w.setStage k .selected) else none
      | _, _ => none
  | .load k action =>
      match w.stages k, action, w.tenant.read k with
      | .selected, .purge calledAt, some t =>
          if calledAt ≤ w.clock then some (w.setStage k (.loaded action t w.clock)) else none
      | .selected, _, _ => none
      | .idle, .purge _, _ => none
      | .idle, _, some t => some (w.setStage k (.loaded action t w.clock))
      | _, _, _ => none
  | .update k now =>
      match w.stages k, w.tenant.read k with
      | .loaded action row loadedAt, some _ =>
          if loadedAt ≤ now ∧ now ≤ w.clock then
            match action.change now row with
            | .error _ => none
            | .ok new =>
                (w.tenant.write k (Option.map (row.flush new))).map fun tenant =>
                  { w with tenant := tenant }.setStage k (.updated action new)
          else none
      | _, _ => none
  | .commit k =>
      match w.stages k with
      | .updated action new =>
          some ({ w with
            tenant := w.tenant.commit k
            history := action.entry new :: w.history }.setStage k (stageAfter action))
      | _ => none
  | .abort k => some ({ w with tenant := w.tenant.rollback k }.setStage k .ended)
  | .destroy k =>
      match w.stages k with
      | .purging => some { w with history := .destroyed w.clock :: w.history }
      | _ => none
  | .finish k =>
      match w.stages k with
      | .purging =>
          (w.tenant.write k fun _ => none).map fun tenant =>
            { w with
              tenant := tenant.commit k
              history := .destroyed w.clock :: w.history }.setStage k .ended
      | _ => none

/-- The transition relation of `World.step`. -/
def Step (w : World) (e : Event) (w' : World) : Prop := w.step e = some w'

/-- **What the writes rely on.** A purge writes its start to a row that is still due for deletion; a
cancellation writes to a row whose purge has not started, and whose date it has read. -/
def Undisturbed (w : World) : Event → Prop
  | .update k _ =>
      match w.stages k with
      | .loaded (.purge calledAt) _ _ =>
          ∀ t ∈ w.tenant.committed, t.deleteAfter.any (· ≤ calledAt)
      | .loaded .cancelDeletion row _ =>
          ∀ t ∈ w.tenant.committed,
            t.purgeStartedAt = none ∧ (row.deleteAfter = none → t.deleteAfter = none)
      | _ => True
  | _ => True

end World

/-! ### Histories -/

/-- At the given time a deletion may be carried out: it was never cancelled, or it has been
scheduled again since and its grace period has passed. -/
def Permitted (now : ℚ) : List Entry → Prop
  | [] => True
  | .cancelled :: _ => False
  | .scheduled d :: h => d ≤ now ∨ Permitted now h
  | _ :: h => Permitted now h

/-- **Cancellations are respected**: nothing is destroyed unless it is permitted, and no deletion is
cancelled after the purge has started. -/
def Respected : List Entry → Prop
  | [] => True
  | .destroyed now :: h => Permitted now h ∧ Respected h
  | .cancelled :: h => .purgeStarted ∉ h ∧ Respected h
  | _ :: h => Respected h

/-- The date has been scheduled since the last cancellation, if there is one. -/
def Backed (d : ℚ) : List Entry → Prop
  | [] => True
  | .cancelled :: _ => False
  | .scheduled d' :: h => d' = d ∨ Backed d h
  | _ :: h => Backed d h

theorem Backed.permitted {d now : ℚ} (hd : d ≤ now) {h : List Entry} (hb : Backed d h) :
    Permitted now h := by
  induction h with
  | nil => trivial
  | cons e h ih =>
    cases e with
    | cancelled => exact hb
    | scheduled d' => exact hb.imp (fun heq => heq.trans_le hd) ih
    | resumed => exact ih hb
    | purgeStarted => exact ih hb
    | destroyed at' => exact ih hb

theorem Permitted.mono {now now' : ℚ} (hle : now ≤ now') {h : List Entry} (hp : Permitted now h) :
    Permitted now' h := by
  induction h with
  | nil => trivial
  | cons e h ih =>
    cases e with
    | cancelled => exact hp
    | scheduled d => exact hp.imp (fun hd => hd.trans hle) ih
    | resumed => exact ih hp
    | purgeStarted => exact ih hp
    | destroyed at' => exact ih hp

/-! ### What a write does -/

/-- What an action has written, `v`, over the committed row `t`. -/
structure Pending (clock : ℚ) (action : Action) (new t v : Tenant) : Prop where
  keeps : t.purgeStartedAt ≠ none → v.purgeStartedAt ≠ none
  date : match action with
    | .scheduleDeletion _ _ =>
        (∃ d, new.deleteAfter = some d) ∧
          (v.deleteAfter = new.deleteAfter ∨ v.deleteAfter = t.deleteAfter)
    | .cancelDeletion => v.deleteAfter = none ∧ t.purgeStartedAt = none
    | .resume => v.deleteAfter = t.deleteAfter
    | .purge _ => v.purgeStartedAt ≠ none ∧ v.deleteAfter = t.deleteAfter ∧
        ∃ d ≤ clock, t.deleteAfter = some d

theorem assign_self {β : Type} [DecidableEq β] (loaded current : β) :
    assign loaded loaded current = current := if_pos rfl

theorem assign_cases {β : Type} [DecidableEq β] (loaded new current : β) :
    assign loaded new current = current ∨ assign loaded new current = new := by
  unfold assign
  split <;> simp

theorem pending_scheduleDeletion {clock now : ℚ} {confirm : String} {actor : Option ℤ}
    {row new t : Tenant} (h : Action.change now row (.scheduleDeletion confirm actor) = .ok new) :
    Pending clock (.scheduleDeletion confirm actor) new t (row.flush new t) := by
  simp only [Action.change] at h
  split_ifs at h
  obtain rfl := Except.ok.inj h
  refine ⟨fun hstarted => ?_, ⟨_, rfl⟩, ?_⟩
  · simpa [Tenant.flush, assign_self] using hstarted
  · exact (assign_cases ..).symm

theorem pending_cancelDeletion {clock now : ℚ} {row new t : Tenant}
    (h : Action.change now row .cancelDeletion = .ok new) (hstarted : t.purgeStartedAt = none)
    (hdate : row.deleteAfter = none → t.deleteAfter = none) :
    Pending clock .cancelDeletion new t (row.flush new t) := by
  simp only [Action.change] at h
  split_ifs at h
  obtain rfl := Except.ok.inj h
  refine ⟨fun hne => absurd hstarted hne, ?_, hstarted⟩
  change assign row.deleteAfter none t.deleteAfter = none
  unfold assign
  split
  · next heq => exact hdate heq.symm
  · rfl

theorem pending_resume {clock now : ℚ} {row new t : Tenant}
    (h : Action.change now row .resume = .ok new) :
    Pending clock .resume new t (row.flush new t) := by
  simp only [Action.change] at h
  split_ifs at h
  obtain rfl := Except.ok.inj h
  refine ⟨fun hstarted => ?_, ?_⟩
  · simpa [Tenant.flush, assign_self] using hstarted
  · exact assign_self ..

theorem pending_purge {clock now calledAt : ℚ} {row new t : Tenant}
    (h : Action.change now row (.purge calledAt) = .ok new)
    (hseen : row.purgeStartedAt ≠ none → t.purgeStartedAt ≠ none)
    (hdue : ∃ d ≤ clock, t.deleteAfter = some d) :
    Pending clock (.purge calledAt) new t (row.flush new t) := by
  simp only [Action.change] at h
  split_ifs at h
  obtain rfl := Except.ok.inj h
  have hstarted : (row.flush { row with
      purgeStartedAt := row.purgeStartedAt <|> some calledAt } t).purgeStartedAt ≠ none := by
    cases hrow : row.purgeStartedAt with
    | none => simp [Tenant.flush, hrow, assign]
    | some startedAt =>
      have hne := hseen (by simp [hrow])
      simpa [Tenant.flush, hrow, assign] using hne
  exact ⟨fun _ => hstarted, hstarted, assign_self .., hdue⟩

theorem Pending.mono {clock clock' : ℚ} {action : Action} {new t v : Tenant}
    (hp : Pending clock action new t v) (hle : clock ≤ clock') : Pending clock' action new t v := by
  refine ⟨hp.keeps, ?_⟩
  have hdate := hp.date
  cases action with
  | purge calledAt =>
    obtain ⟨hstarted, hv, d, hd, ht⟩ := hdate
    exact ⟨hstarted, hv, d, hd.trans hle, ht⟩
  | _ => exact hdate

/-! ### The invariant -/

namespace World

variable {w w' : World}

structure Inv (w : World) : Prop where
  /-- The date in the row has been scheduled since the last cancellation. -/
  backed : ∀ t d, w.tenant.committed = some t → t.deleteAfter = some d → Backed d w.history
  /-- A purge that has started is recorded in the row. -/
  started : .purgeStarted ∈ w.history → ∀ t, w.tenant.committed = some t → t.purgeStartedAt ≠ none
  permitted : .purgeStarted ∈ w.history → Permitted w.clock w.history
  purging : ∀ k, w.stages k = .purging → .purgeStarted ∈ w.history
  /-- A purge that a transaction has seen started is recorded in the row. -/
  seen : ∀ k action row at', w.stages k = .loaded action row at' → row.purgeStartedAt ≠ none →
    ∀ t, w.tenant.committed = some t → t.purgeStartedAt ≠ none
  called : ∀ k calledAt row at', w.stages k = .loaded (.purge calledAt) row at' →
    calledAt ≤ w.clock
  pending : ∀ k action new, w.stages k = .updated action new →
    w.tenant.writer = some k ∧ ∃ t v, w.tenant.committed = some t ∧ w.tenant.read k = some v ∧
      Pending w.clock action new t v
  locked : ∀ k, w.tenant.writer = some k → ∃ action new, w.stages k = .updated action new
  respected : Respected w.history

theorem inv_init (clock : ℚ) (tenant : Tenant) : (init clock tenant).Inv := by
  refine ⟨?_, ?_, ?_, ?_, ?_, ?_, ?_, ?_, trivial⟩ <;>
    simp [init, Backed, Nodeglow.Row.stored, Nodeglow.Row.writer]

theorem stages_setStage (w : World) (k : ℕ) (stage : Stage) (j : ℕ) :
    (w.setStage k stage).stages j = if j = k then stage else w.stages j := by
  simp [setStage, Function.update_apply]

/-- A transaction gets on without touching the row. -/
theorem Inv.setStage (h : w.Inv) {k : ℕ} {stage : Stage} (hlock : w.tenant.writer ≠ some k)
    (hpurging : stage ≠ .purging) (hupdated : ∀ action new, stage ≠ .updated action new)
    (hseen : ∀ action row at', stage = .loaded action row at' → w.tenant.committed = some row)
    (hcalled : ∀ calledAt row at', stage = .loaded (.purge calledAt) row at' → calledAt ≤ w.clock) :
    (w.setStage k stage).Inv := by
  refine ⟨h.backed, h.started, h.permitted, ?_, ?_, ?_, ?_, ?_, h.respected⟩
  · intro j hj
    rw [stages_setStage] at hj
    split_ifs at hj with hjk
    · exact absurd hj hpurging
    · exact h.purging j hj
  · intro j action row at' hj hrow t ht
    rw [stages_setStage] at hj
    split_ifs at hj with hjk
    · obtain rfl := Option.some.inj (ht.symm.trans (hseen action row at' hj))
      exact hrow
    · exact h.seen j action row at' hj hrow t ht
  · intro j calledAt row at' hj
    rw [stages_setStage] at hj
    split_ifs at hj with hjk
    · exact hcalled calledAt row at' hj
    · exact h.called j calledAt row at' hj
  · intro j action new hj
    rw [stages_setStage] at hj
    split_ifs at hj with hjk
    · exact absurd hj (hupdated action new)
    · exact h.pending j action new hj
  · intro j hj
    rw [stages_setStage, if_neg fun hjk : j = k => hlock (hjk ▸ hj)]
    exact h.locked j hj

theorem Inv.not_writer (h : w.Inv) {k : ℕ}
    (hstage : ∀ action new, w.stages k ≠ .updated action new) : w.tenant.writer ≠ some k := by
  intro hwriter
  obtain ⟨action, new, hupdated⟩ := h.locked k hwriter
  exact hstage action new hupdated

/-- The flush of an action. -/
theorem Inv.update (h : w.Inv) {k : ℕ} {action : Action} {row new : Tenant} {loadedAt : ℚ}
    {tenant : Nodeglow.Row ℕ (Option Tenant)} (hstage : w.stages k = .loaded action row loadedAt)
    (hwrite : w.tenant.write k (Option.map (row.flush new)) = some tenant)
    (hcurrent : ∃ t, w.tenant.read k = some t)
    (hpending : ∀ t, w.tenant.committed = some t →
      Pending w.clock action new t (row.flush new t)) :
    ({ w with tenant := tenant }.setStage k (.updated action new)).Inv := by
  have hlock : w.tenant.writer ≠ some k := h.not_writer (by simp [hstage])
  obtain ⟨hfree, hcommitted, hwriter, -⟩ := Nodeglow.Row.write_eq_some hwrite
  have hread := Nodeglow.Row.read_of_write hlock hwrite
  obtain ⟨t, ht⟩ := hcurrent
  rw [Nodeglow.Row.read_of_writer_ne hlock] at ht
  have hnobody : w.tenant.writer = none := hfree.resolve_right hlock
  refine ⟨?_, ?_, h.permitted, ?_, ?_, ?_, ?_, ?_, h.respected⟩
  · intro t' d ht'
    exact h.backed t' d (hcommitted ▸ ht')
  · intro hstarted t' ht'
    exact h.started hstarted t' (hcommitted ▸ ht')
  · intro j hj
    rw [stages_setStage] at hj
    split_ifs at hj
    exact h.purging j hj
  · intro j action' row' at' hj hrow t' ht'
    rw [stages_setStage] at hj
    split_ifs at hj
    exact h.seen j action' row' at' hj hrow t' (hcommitted ▸ ht')
  · intro j calledAt row' at' hj
    rw [stages_setStage] at hj
    split_ifs at hj
    exact h.called j calledAt row' at' hj
  · intro j action' new' hj
    rw [stages_setStage] at hj
    split_ifs at hj with hjk
    · obtain ⟨rfl, rfl⟩ : action = action' ∧ new = new' := by simpa using hj
      subst hjk
      refine ⟨hwriter, t, row.flush new t, hcommitted.trans ht, ?_, hpending t ht⟩
      exact hread.trans (by rw [ht]; rfl)
    · have hother := (h.pending j action' new' hj).1
      rw [hnobody] at hother
      cases hother
  · intro j hj
    obtain rfl : k = j := Option.some.inj (hwriter.symm.trans hj)
    exact ⟨action, new, by rw [stages_setStage, if_pos rfl]⟩

/-- What the commit of an action adds to the history. -/
theorem Inv.history_commit (h : w.Inv) {action : Action} {new t v : Tenant}
    (hp : Pending w.clock action new t v) (ht : w.tenant.committed = some t) :
    (∀ d, v.deleteAfter = some d → Backed d (action.entry new :: w.history)) ∧
      (.purgeStarted ∈ action.entry new :: w.history → v.purgeStartedAt ≠ none ∧
        Permitted w.clock (action.entry new :: w.history)) ∧
      Respected (action.entry new :: w.history) := by
  have hold (hstarted : .purgeStarted ∈ w.history) : v.purgeStartedAt ≠ none :=
    hp.keeps (h.started hstarted t ht)
  have hdate := hp.date
  cases action with
  | scheduleDeletion confirm actor =>
    obtain ⟨⟨d', hd'⟩, hv⟩ := hdate
    refine ⟨fun d hd => ?_, fun hstarted => ?_, h.respected⟩
    · rcases hv with hv | hv
      · refine Or.inl ?_
        rw [hd', hd] at hv
        simp [hd', Option.some.inj hv]
      · exact Or.inr (h.backed t d ht (hv ▸ hd))
    · have hmem : .purgeStarted ∈ w.history := by simpa [Action.entry] using hstarted
      exact ⟨hold hmem, Or.inr (h.permitted hmem)⟩
  | cancelDeletion =>
    have hnot : .purgeStarted ∉ w.history := fun hmem => h.started hmem t ht hdate.2
    refine ⟨fun d hd => ?_, fun hstarted => ?_, hnot, h.respected⟩
    · rw [hdate.1] at hd
      cases hd
    · exact absurd (by simpa [Action.entry] using hstarted) hnot
  | resume =>
    refine ⟨fun d hd => h.backed t d ht (hdate ▸ hd), fun hstarted => ?_, h.respected⟩
    have hmem : .purgeStarted ∈ w.history := by simpa [Action.entry] using hstarted
    exact ⟨hold hmem, h.permitted hmem⟩
  | purge calledAt =>
    obtain ⟨hstarted, hv, d, hd, htd⟩ := hdate
    exact ⟨fun d hd => h.backed t d ht (hv ▸ hd),
      fun _ => ⟨hstarted, (h.backed t d ht htd).permitted hd⟩, h.respected⟩

/-- The commit of an action. -/
theorem Inv.commit (h : w.Inv) {k : ℕ} {action : Action} {new : Tenant}
    (hstage : w.stages k = .updated action new) :
    ({ w with
      tenant := w.tenant.commit k
      history := action.entry new :: w.history }.setStage k (stageAfter action)).Inv := by
  obtain ⟨hwriter, t, v, ht, hv, hp⟩ := h.pending k action new hstage
  have hcommitted : (w.tenant.commit k).committed = some v :=
    (Nodeglow.Row.committed_commit hwriter).trans hv
  have hfree : (w.tenant.commit k).writer = none := Nodeglow.Row.writer_commit hwriter
  obtain ⟨hbacked, hstarted, hrespected⟩ := h.history_commit hp ht
  refine ⟨?_, ?_, fun hmem => (hstarted hmem).2, ?_, ?_, ?_, ?_, ?_, hrespected⟩
  · intro t' d ht'
    obtain rfl := Option.some.inj (hcommitted.symm.trans ht')
    exact hbacked d
  · intro hmem t' ht'
    obtain rfl := Option.some.inj (hcommitted.symm.trans ht')
    exact (hstarted hmem).1
  · intro j hj
    rw [stages_setStage] at hj
    split_ifs at hj
    · cases action with
      | purge calledAt => exact List.mem_cons_self
      | _ => cases hj
    · exact List.mem_cons_of_mem _ (h.purging j hj)
  · intro j action' row at' hj hrow t' ht'
    rw [stages_setStage] at hj
    obtain rfl := Option.some.inj (hcommitted.symm.trans ht')
    split_ifs at hj
    · cases action <;> cases hj
    · exact hp.keeps (h.seen j action' row at' hj hrow t ht)
  · intro j calledAt row at' hj
    rw [stages_setStage] at hj
    split_ifs at hj
    · cases action <;> cases hj
    · exact h.called j calledAt row at' hj
  · intro j action' new' hj
    rw [stages_setStage] at hj
    split_ifs at hj with hjk
    · cases action <;> cases hj
    · have hother := (h.pending j action' new' hj).1
      exact absurd (Option.some.inj (hother.symm.trans hwriter)) hjk
  · intro j hj
    have hnone : (w.tenant.commit k).writer = some j := hj
    rw [hfree] at hnone
    cases hnone

/-- A transaction is rolled back. -/
theorem Inv.abort (h : w.Inv) (k : ℕ) :
    ({ w with tenant := w.tenant.rollback k }.setStage k .ended).Inv := by
  by_cases hwriter : w.tenant.writer = some k
  · have hfree : (w.tenant.rollback k).writer = none := Nodeglow.Row.writer_rollback hwriter
    have hcommitted : (w.tenant.rollback k).committed = w.tenant.committed :=
      Nodeglow.Row.committed_rollback
    have hnone (j : ℕ) (action : Action) (new : Tenant) (hjk : j ≠ k) :
        w.stages j ≠ .updated action new := by
      intro hj
      exact hjk (Option.some.inj ((h.pending j action new hj).1.symm.trans hwriter))
    refine ⟨?_, ?_, h.permitted, ?_, ?_, ?_, ?_, ?_, h.respected⟩
    · intro t d ht
      exact h.backed t d (hcommitted ▸ ht)
    · intro hmem t ht
      exact h.started hmem t (hcommitted ▸ ht)
    · intro j hj
      rw [stages_setStage] at hj
      split_ifs at hj
      exact h.purging j hj
    · intro j action row at' hj hrow t ht
      rw [stages_setStage] at hj
      split_ifs at hj
      exact h.seen j action row at' hj hrow t (hcommitted ▸ ht)
    · intro j calledAt row at' hj
      rw [stages_setStage] at hj
      split_ifs at hj
      exact h.called j calledAt row at' hj
    · intro j action new hj
      rw [stages_setStage] at hj
      split_ifs at hj with hjk
      exact absurd hj (hnone j action new hjk)
    · intro j hj
      have hsome : (w.tenant.rollback k).writer = some j := hj
      rw [hfree] at hsome
      cases hsome
  · rw [Nodeglow.Row.rollback_of_writer_ne hwriter]
    exact h.setStage hwriter (by simp) (by simp) (by simp) (by simp)

/-- A purge that has started destroys something. -/
theorem Inv.destroy (h : w.Inv) {k : ℕ} (hstage : w.stages k = .purging) :
    Inv { w with history := .destroyed w.clock :: w.history } := by
  have hmem := h.purging k hstage
  have hback (hmem' : .purgeStarted ∈ .destroyed w.clock :: w.history) :
      .purgeStarted ∈ w.history := by
    simpa using hmem'
  exact ⟨h.backed, fun hmem' => h.started (hback hmem'), fun hmem' => h.permitted (hback hmem'),
    fun j hj => List.mem_cons_of_mem _ (h.purging j hj), h.seen, h.called,
    h.pending, h.locked, h.permitted hmem, h.respected⟩

/-- The purge deletes the tenant's row. -/
theorem Inv.finish (h : w.Inv) {k : ℕ} {tenant : Nodeglow.Row ℕ (Option Tenant)}
    (hstage : w.stages k = .purging) (hwrite : w.tenant.write k (fun _ => none) = some tenant) :
    ({ w with
      tenant := tenant.commit k
      history := .destroyed w.clock :: w.history }.setStage k .ended).Inv := by
  have hmem := h.purging k hstage
  have hlock : w.tenant.writer ≠ some k := h.not_writer (by simp [hstage])
  obtain ⟨hfree, -, hwriter, hread⟩ := Nodeglow.Row.write_eq_some hwrite
  have hgone (t : Tenant) : (tenant.commit k).committed ≠ some t := by
    rw [Nodeglow.Row.committed_commit hwriter, hread]
    simp
  have hnobody : w.tenant.writer = none := hfree.resolve_right hlock
  refine ⟨fun t _ ht => absurd ht (hgone t), fun _ t ht => absurd ht (hgone t), ?_, ?_,
    fun _ _ _ _ _ _ t ht => absurd ht (hgone t), ?_, ?_, ?_, h.permitted hmem, h.respected⟩
  · intro _
    exact h.permitted hmem
  · intro j hj
    rw [stages_setStage] at hj
    split_ifs at hj
    exact List.mem_cons_of_mem _ (h.purging j hj)
  · intro j calledAt row at' hj
    rw [stages_setStage] at hj
    split_ifs at hj
    exact h.called j calledAt row at' hj
  · intro j action new hj
    rw [stages_setStage] at hj
    split_ifs at hj
    have hother := (h.pending j action new hj).1
    rw [hnobody] at hother
    cases hother
  · intro j hj
    have hsome : (tenant.commit k).writer = some j := hj
    rw [Nodeglow.Row.writer_commit hwriter] at hsome
    cases hsome

/-- **One event.** -/
theorem Inv.step {e : Event} (h : w.Inv) (hund : w.Undisturbed e) (hstep : w.Step e w') :
    w'.Inv := by
  unfold Step World.step at hstep
  cases e with
  | elapse seconds =>
    obtain ⟨hpos, rfl⟩ := made_of_guard hstep
    have hle : w.clock ≤ w.clock + seconds := le_add_of_nonneg_right hpos
    refine ⟨h.backed, h.started, fun hmem => (h.permitted hmem).mono hle, h.purging, h.seen,
      fun k calledAt row at' hk => (h.called k calledAt row at' hk).trans hle, ?_, h.locked,
      h.respected⟩
    intro k action new hk
    obtain ⟨hwriter, t, v, ht, hv, hp⟩ := h.pending k action new hk
    exact ⟨hwriter, t, v, ht, hv, hp.mono hle⟩
  | select k =>
    simp only at hstep
    split at hstep
    · next hstage _ =>
      obtain ⟨-, rfl⟩ := made_of_guard hstep
      exact h.setStage (h.not_writer (by simp [hstage])) (by simp) (by simp) (by simp) (by simp)
    · cases hstep
  | load k action =>
    have hload {t : Tenant} (hread : w.tenant.read k = some t)
        (hstage : ∀ action new, w.stages k ≠ .updated action new)
        (hcalled : ∀ calledAt, action = .purge calledAt → calledAt ≤ w.clock) :
        (w.setStage k (.loaded action t w.clock)).Inv := by
      have hlock := h.not_writer hstage
      rw [Nodeglow.Row.read_of_writer_ne hlock] at hread
      refine h.setStage hlock (by simp) (by simp) (fun _ _ _ heq => ?_) fun calledAt _ _ heq => ?_
      · obtain ⟨-, rfl, -⟩ := Stage.loaded.inj heq
        exact hread
      · exact hcalled calledAt (Stage.loaded.inj heq).1
    simp only at hstep
    split at hstep
    · next hstage hread =>
      obtain ⟨hcalled, rfl⟩ := made_of_guard hstep
      refine hload hread (by simp [hstage]) fun calledAt' heq => ?_
      exact Action.purge.inj heq ▸ hcalled
    · cases hstep
    · cases hstep
    · next hstage hpurge hread =>
      obtain rfl := Option.some.inj hstep
      exact hload hread (by simp [hstage]) fun calledAt heq => (hpurge calledAt heq).elim
    · cases hstep
  | update k now =>
    simp only at hstep
    split at hstep
    · next action row loadedAt t hstage hread =>
      split_ifs at hstep with htime
      split at hstep
      · cases hstep
      · next new hchange =>
        obtain ⟨tenant, hwrite, rfl⟩ := Option.map_eq_some_iff.mp hstep
        refine h.update hstage hwrite ⟨t, hread⟩ fun t' ht' => ?_
        simp only [Undisturbed, hstage] at hund
        cases action with
        | scheduleDeletion confirm actor => exact pending_scheduleDeletion hchange
        | cancelDeletion => exact pending_cancelDeletion hchange (hund t' ht').1 (hund t' ht').2
        | resume => exact pending_resume hchange
        | purge calledAt =>
          obtain ⟨d, hdate, hd⟩ : ∃ d, t'.deleteAfter = some d ∧ d ≤ calledAt := by
            simpa [Option.any_eq_true] using hund t' ht'
          have hcalled := h.called k calledAt row loadedAt hstage
          exact pending_purge hchange
            (fun hrow => h.seen k (.purge calledAt) row loadedAt hstage hrow t' ht')
            ⟨d, hd.trans hcalled, hdate⟩
    · cases hstep
  | commit k =>
    simp only at hstep
    split at hstep
    · next action new hstage =>
      obtain rfl := Option.some.inj hstep
      exact h.commit hstage
    · cases hstep
  | abort k =>
    obtain rfl := Option.some.inj hstep
    exact h.abort k
  | destroy k =>
    simp only at hstep
    split at hstep
    · next hstage =>
      obtain rfl := Option.some.inj hstep
      exact h.destroy hstage
    · cases hstep
  | finish k =>
    simp only at hstep
    split at hstep
    · next hstage =>
      obtain ⟨tenant, hwrite, rfl⟩ := Option.map_eq_some_iff.mp hstep
      exact h.finish hstage hwrite
    · cases hstep

/-- **Cancelled deletions are not purged**, in any run in which a purge writes its start to a row
that is still due and a cancellation writes to a row whose purge has not started. -/
theorem cancellations_respected {clock : ℚ} {tenant : Tenant} {l : List Event}
    (hrun : Run (Guarded Undisturbed Step) (init clock tenant) l w) : Respected w.history := by
  have h : w.Inv :=
    hrun.invariant (fun _ _ _ h hstep => h.step hstep.1 hstep.2) (inv_init clock tenant)
  exact h.respected

/-! ### Samples -/

def sampleTenant : Tenant where
  id := 2
  name := "acme"
  status := .active
  suspendedAt := none
  deleteAfter := none
  deletionRequestedAt := none
  deletionRequestedBy := none
  purgeStartedAt := none

/-- Deletion is scheduled, cancelled, scheduled again, and carried out a month later. -/
def sampleDeleted : List Event :=
  [.load 0 (.scheduleDeletion "acme" (some 1)), .update 0 0, .commit 0,
    .load 1 .cancelDeletion, .update 1 0, .commit 1,
    .load 2 (.scheduleDeletion " acme " (some 1)), .update 2 0, .commit 2,
    .elapse deletionGrace, .select 3, .load 3 (.purge deletionGrace), .update 3 deletionGrace,
    .commit 3, .destroy 3, .finish 3]

/-- Deletion is cancelled after the purge has read the row and before it writes it. -/
def sampleOvertaken : List Event :=
  [.load 0 (.scheduleDeletion "acme" (some 1)), .update 0 0, .commit 0, .elapse deletionGrace,
    .select 1, .load 1 (.purge deletionGrace), .load 2 .cancelDeletion, .update 2 deletionGrace,
    .commit 2, .update 1 deletionGrace, .commit 1, .destroy 1]

instance (w : World) (e : Event) : Decidable (w.Undisturbed e) := by
  unfold Undisturbed
  split
  · split <;> infer_instance
  · infer_instance

theorem cancellations_respected_then_deleted :
    ∃ w, Run (Guarded Undisturbed Step) (init 0 sampleTenant) sampleDeleted w ∧
      w.history = [.destroyed deletionGrace, .destroyed deletionGrace, .purgeStarted,
        .scheduled deletionGrace, .cancelled, .scheduled deletionGrace] ∧
      Respected w.history := by
  have hview : (sampleDeleted.foldlM
      (fun (w : World) e => if w.Undisturbed e then w.step e else none)
      (init 0 sampleTenant)).map World.history =
        some [.destroyed deletionGrace, .destroyed deletionGrace, .purgeStarted,
          .scheduled deletionGrace, .cancelled, .scheduled deletionGrace] := by
    decide +kernel
  obtain ⟨w, hw, hhistory⟩ := Option.map_eq_some_iff.mp hview
  have hrun := Run.guarded_of_foldlM hw
  exact ⟨w, hrun, hhistory, cancellations_respected hrun⟩

/-- The cancellation is committed, and the tenant's data is destroyed. -/
theorem purged_after_cancel :
    ¬∀ (clock : ℚ) (tenant : Tenant) (l : List Event) (w : World),
      Run Step (init clock tenant) l w → Respected w.history := by
  intro hall
  have hview : (sampleOvertaken.foldlM step (init 0 sampleTenant)).map World.history =
      some [.destroyed deletionGrace, .purgeStarted, .cancelled, .scheduled deletionGrace] := by
    decide +kernel
  obtain ⟨w, hw, hhistory⟩ := Option.map_eq_some_iff.mp hview
  have hrespected := hall _ _ _ w (Run.of_foldlM hw)
  rw [hhistory] at hrespected
  exact hrespected.1

end World

end Nodeglow.Tenancy.Deletion
