import Nodeglow.Backend.Tenancy.SessionInvariant

/-!
# Write isolation of the session filter

Outside system scope a flush writes only rows of the tenant of the context, and rows without a
tenant of the models that may have none; no row changes its tenant; without a context nothing that
belongs to a tenant is written. An object that became pending for one tenant, and was given none of
its own, does not reach another: the flush is refused.

An object that carries a tenant explicitly is flushed in the context of that tenant, whichever
context it became pending in (`Session.inserted_for_other_tenant`).

## Main results

* `Session.belongsTo_of_mem_writes` — the rows that a flush writes to.
* `Session.tenant_eq_of_step` — the tenants of rows.
* `Session.refused_of_stamped` — objects of another tenant.
* `Session.write_isolation` — every run.

Source: `backend/services/tenancy.py`, lines 752–823.
-/

namespace Nodeglow.Tenancy

/-- The columns belong to the tenant, or to none where the model allows it. -/
def Columns.BelongsTo (c : Columns) (t : ℕ) : Prop :=
  c.tenant = some t ∨ (c.tenant = none ∧ c.model.tenantNullable = true)

/-- The columns of a row before and after a statement. -/
def Write.columns (w : Write) : List Columns := w.old.toList ++ w.new.toList

namespace Session

variable {s s' : Session} {id : ℕ} {o : Obj}

/-- **The rows of a flush** outside system scope are of the tenant of the context, before and
after, or of none. -/
theorem belongsTo_of_mem_writes {defaultSiteId : ℕ → Option ℕ} {accepted : Bool} {w : Write}
    {c : Columns} (h : s.Inv) (hsystem : ¬s.InSystemScope)
    (hw : w ∈ (s.flush defaultSiteId accepted).writes) (hc : c ∈ w.columns)
    (hscoped : c.model.tenantScoped = true) :
    ∃ t, s.effectiveContext = some (.tenant t) ∧ c.BelongsTo t := by
  obtain ⟨hinv, hrows, -⟩ := h.beforeFlush defaultSiteId
  cases hok : (s.beforeFlush defaultSiteId).2 with
  | some error => simp [flush_of_refused hok] at hw
  | none =>
    rw [(flush_of_ok hok accepted).1] at hw
    obtain ⟨id, -, hid⟩ := List.mem_filterMap.mp hw
    obtain ⟨o, ho, hkind⟩ := write?_cases hid
    have hpass (hs : o.model.tenantScoped = true) := beforeFlush_ok h hsystem hok ho hs
    rcases hkind with ⟨hnew, rfl⟩ | ⟨r, hr, hkind⟩
    · obtain rfl : c = o.columns := by simpa [Write.columns] using hc
      obtain ⟨t, hctx, htenant⟩ := (hpass hscoped).1 hnew
      exact ⟨t, hctx, Or.inl htenant⟩
    · have hmodel : r.model = o.model := (hinv.fits id o ho).model r (Or.inl hr)
      have hold : o.isDeleted = true ∨ (o.isDirty = true ∧ o.isModified = true) :=
        hkind.imp And.left And.left
      have hc' : c.model = r.model ∧ (o.tenant.hasChanges = false → c.tenant = r.tenant) := by
        rcases hkind with ⟨-, rfl⟩ | ⟨-, rfl⟩
        · obtain rfl : c = r.toColumns := by simpa [Write.columns] using hc
          exact ⟨rfl, fun _ => rfl⟩
        · obtain rfl | rfl : c = r.toColumns ∨ c = o.updated r := by
            simpa [Write.columns] using hc
          · exact ⟨rfl, fun _ => rfl⟩
          · exact ⟨rfl, fun hno => by simp [Obj.updated, Attr.stored, hno]⟩
      have hs : o.model.tenantScoped = true := by rw [← hmodel, ← hc'.1, hscoped]
      obtain ⟨hno, t, hctx, htenant⟩ := (hpass hs).2 r (hrows ▸ hr) hold
      refine ⟨t, hctx, htenant.symm.imp (hc'.2 hno).trans fun hnone => ?_⟩
      refine ⟨(hc'.2 hno).trans hnone, ?_⟩
      rw [hc'.1]
      exact r.notNull (by rw [hmodel, hs]) hnone

/-- A row that a flush changes is among those it writes, unless the transaction is rolled back. -/
theorem mem_writes_of_row_ne (h : s.Inv) (defaultSiteId : ℕ → Option ℕ) (accepted : Bool) :
    (s.flush defaultSiteId accepted).session.row = s.saved ∨
      ∀ id, (s.flush defaultSiteId accepted).session.row id ≠ s.row id →
        ∃ w ∈ (s.flush defaultSiteId accepted).writes, w.id = id := by
  obtain ⟨hinv, hrows, hsaved⟩ := h.beforeFlush defaultSiteId
  cases hok : (s.beforeFlush defaultSiteId).2 with
  | some error =>
    refine Or.inr fun id hne => absurd ?_ hne
    rw [flush_of_refused hok, hrows]
  | none =>
    obtain ⟨hwrites, heq | heq⟩ := flush_of_ok hok accepted
    · refine Or.inr fun id hne => ?_
      rw [heq] at hne
      cases hw : (s.beforeFlush defaultSiteId).1.write? id with
      | none => exact absurd (by simp [Session.flushed, hw, hrows]) hne
      | some w =>
        obtain ⟨o, ho, hkind⟩ := write?_cases hw
        refine ⟨w, ?_, ?_⟩
        · rw [hwrites]
          exact List.mem_filterMap.mpr ⟨id, List.mem_range.mpr (hinv.lt_next ho), hw⟩
        · rcases hkind with ⟨-, rfl⟩ | ⟨r, -, ⟨-, rfl⟩ | ⟨-, rfl⟩⟩ <;> rfl
    · exact Or.inl (by rw [heq, Session.rollback, hsaved])

/-- A flush outside system scope keeps the tenant of every row, unless the transaction is rolled
back. -/
theorem tenant_eq_of_flush (h : s.Inv) (hsystem : ¬s.InSystemScope) (defaultSiteId : ℕ → Option ℕ)
    (accepted : Bool) :
    (s.flush defaultSiteId accepted).session.row = s.saved ∨
      ∀ id r r', s.row id = some r → (s.flush defaultSiteId accepted).session.row id = some r' →
        r.model.tenantScoped = true → r'.tenant = r.tenant := by
  obtain ⟨hinv, hrows, hsaved⟩ := h.beforeFlush defaultSiteId
  cases hok : (s.beforeFlush defaultSiteId).2 with
  | some error =>
    refine Or.inr fun id r r' hr hr' _ => ?_
    rw [flush_of_refused hok, hrows] at hr'
    exact congrArg (·.tenant) (Option.some.inj (hr'.symm.trans hr))
  | none =>
    obtain ⟨-, heq | heq⟩ := flush_of_ok hok accepted
    · refine Or.inr fun id r r' hr hr' hscoped => ?_
      have hr₁ : (s.beforeFlush defaultSiteId).1.row id = some r := by rw [hrows, hr]
      rw [heq, Session.flushed] at hr'
      cases hw : (s.beforeFlush defaultSiteId).1.write? id with
      | none =>
        simp only [hw, hr₁] at hr'
        exact congrArg (·.tenant) (Option.some.inj hr').symm
      | some w =>
        simp only [hw] at hr'
        obtain ⟨o, ho, hkind⟩ := write?_cases hw
        have hfits := hinv.fits id o ho
        rcases hkind with ⟨hnew, rfl⟩ | ⟨r₁, hr₂, hkind⟩
        · have hpending : o.state = .pending := by simpa [Obj.isNew] using hnew
          simp [(hfits.unsaved (Or.inr hpending)).1] at hr₁
        · obtain rfl : r = r₁ := Option.some.inj (hr₁.symm.trans hr₂)
          rcases hkind with ⟨-, rfl⟩ | ⟨hmodified, rfl⟩
          · simp at hr'
          · have hs : o.model.tenantScoped = true := by
              rw [← hfits.model r (Or.inl hr₁), hscoped]
            obtain ⟨hno, -⟩ := (beforeFlush_ok h hsystem hok ho hs).2 r hr (Or.inr hmodified)
            rw [Columns.toColumns_of_toRow? hr']
            simp [Obj.updated, Attr.stored, hno]
    · exact Or.inl (by rw [heq, Session.rollback, hsaved])

/-- Outside system scope an event keeps the tenant of every row, or restores the rows of the last
commit. -/
theorem tenant_eq_of_step {e : Event} (h : s.Inv) (hsystem : ¬s.InSystemScope)
    (hstep : Step s e s') :
    s'.row = s.saved ∨
      ∀ id r r', s.row id = some r → s'.row id = some r' → r.model.tenantScoped = true →
        r'.tenant = r.tenant := by
  have hsame (hrow : s'.row = s.row) :
      ∀ id r r', s.row id = some r → s'.row id = some r' → r.model.tenantScoped = true →
        r'.tenant = r.tenant := by
    intro id r r' hr hr' _
    rw [hrow, hr] at hr'
    exact congrArg (·.tenant) (Option.some.inj hr').symm
  cases effect_of_step hstep with
  | scope | create | edit | load | commit => exact Or.inr (hsame rfl)
  | add ho =>
    refine Or.inr (hsame ?_)
    unfold Session.add
    split <;> rfl
  | flush defaultSiteId accepted => exact tenant_eq_of_flush h hsystem defaultSiteId accepted
  | rollback => exact Or.inl rfl

/-! ### Objects of another tenant -/

/-- The object is pending. -/
def Pending (s : Session) (id : ℕ) : Prop := ∃ o, s.obj id = some o ∧ o.isNew = true

/-- The object is one of the tenant's, if it is still pending. -/
def Stamped (s : Session) (id A : ℕ) : Prop :=
  ∀ o, s.obj id = some o → o.isNew = true →
    o.model.tenantScoped = true ∧ o.tenantId = some A

/-- The object is pending, and nothing is assigned to its tenant. -/
def LeavesPending (id : ℕ) (s : Session) (e : Event) : Prop :=
  s.Pending id ∧ ∀ tenant, e ≠ .setTenant id tenant

theorem Stamped.checkAllNew {A : ℕ} (h : s.Stamped id A) (ctx : Option TenantContext)
    (defaultSiteId : ℕ → Option ℕ) : (s.checkAllNew ctx defaultSiteId).1.Stamped id A := by
  intro o ho hnew
  obtain ⟨o', ho', rfl | ⟨-, rfl⟩⟩ := forObjects_cases (s.nodup_objects _) ho
  · exact h o ho' hnew
  · obtain ⟨a, b, hframe, ha⟩ := checkNew_frame ctx defaultSiteId o'
    rw [hframe] at hnew ⊢
    obtain ⟨hscoped, htenant⟩ := h o' ho' hnew
    rcases ha with rfl | ⟨hnone, -⟩
    · exact ⟨hscoped, htenant⟩
    · simp [hnone] at htenant

/-- The filter does not touch the tenant of a pending object that has one. -/
theorem Stamped.beforeFlush {A : ℕ} (h : s.Inv) (hpending : s.Pending id) (hstamped : s.Stamped id A)
    (defaultSiteId : ℕ → Option ℕ) : (s.beforeFlush defaultSiteId).1.Stamped id A := by
  obtain ⟨hinv, -, -, hobj⟩ := audit_frame h
  have haudit : s.audit.Stamped id A := by
    intro o ho hnew
    obtain ⟨o', ho', -⟩ := hpending
    obtain rfl : o' = o := Option.some.inj ((hobj id o' ho').symm.trans ho)
    exact hstamped o' ho' hnew
  have hnew := haudit.checkAllNew s.effectiveContext defaultSiteId
  rcases s.beforeFlush_cases defaultSiteId with heq | heq
  · exact heq ▸ hnew
  · rw [heq]
    intro o ho hisNew
    exact hnew o (checkAllOld_obj_of_isNew (hinv.checkAllNew _ _) ho hisNew) hisNew

theorem isNew_flushed (o : Obj) : o.flushed.isNew = false := by
  cases hstate : o.state with
  | transient | pending | deleted => simp [Obj.flushed, Obj.isNew, hstate]
  | persistent =>
    cases hmarked : o.marked <;> simp [Obj.flushed, Obj.isNew, hstate, hmarked]

theorem isNew_rolledBack (o : Obj) : o.rolledBack.isNew = false := by
  cases hstate : o.state with
  | transient | pending => simp [Obj.rolledBack, Obj.isNew, hstate]
  | persistent | deleted =>
    cases hinserted : o.inserted <;> simp [Obj.rolledBack, Obj.isNew, hstate, hinserted]

theorem Stamped.flush {A : ℕ} (h : s.Inv) (hpending : s.Pending id) (hstamped : s.Stamped id A)
    (defaultSiteId : ℕ → Option ℕ) (accepted : Bool) :
    (s.flush defaultSiteId accepted).session.Stamped id A := by
  cases hok : (s.beforeFlush defaultSiteId).2 with
  | some error =>
    rw [flush_of_refused hok]
    exact hstamped.beforeFlush h hpending defaultSiteId
  | none =>
    intro o ho hnew
    rcases (flush_of_ok hok accepted).2 with heq | heq
    · rw [heq] at ho
      obtain ⟨o', -, rfl⟩ := Option.map_eq_some_iff.mp ho
      simp [isNew_flushed] at hnew
    · rw [heq] at ho
      obtain ⟨o', -, rfl⟩ := Option.map_eq_some_iff.mp ho
      simp [isNew_rolledBack] at hnew

/-- **A pending object keeps its tenant** while nothing is assigned to it. -/
theorem Stamped.step {e : Event} {A : ℕ} (h : s.Inv) (hleaves : LeavesPending id s e)
    (hstamped : s.Stamped id A) (hstep : Step s e s') : s'.Stamped id A := by
  obtain ⟨hpending, hassign⟩ := hleaves
  obtain ⟨o₀, ho₀, hnew₀⟩ := hpending
  -- an object that keeps its state, its model and its tenant
  have hset {id' : ℕ} {o' : Obj} (hself : id' = id → o'.isNew = true →
      o'.model.tenantScoped = true ∧ o'.tenantId = some A) : (s.setObj id' o').Stamped id A := by
    intro o ho hnew
    by_cases heq : id = id'
    · subst heq
      obtain rfl : o' = o := Option.some.inj ((setObj_obj_self ..).symm.trans ho)
      exact hself rfl hnew
    · exact hstamped o ((setObj_obj_of_ne heq ..).symm.trans ho) hnew
  cases effect_of_step hstep with
  | scope => exact hstamped
  | create model tenant site =>
    intro o ho hnew
    have hne : id ≠ s.next := (h.lt_next ho₀).ne
    exact hstamped o (by simpa [Session.create, hne] using ho) hnew
  | @add id' o ho =>
    unfold Session.add
    split
    · next hstate =>
      refine hset fun heq _ => ?_
      subst heq
      obtain rfl : o = o₀ := Option.some.inj (ho.symm.trans ho₀)
      simp [Obj.isNew, hstate] at hnew₀
    · refine hset fun heq hnew => ?_
      subst heq
      exact hstamped o ho hnew
  | @edit id' o o' ho hedit =>
    refine hset fun heq hnew => ?_
    subst heq
    obtain rfl : o = o₀ := Option.some.inj (ho.symm.trans ho₀)
    obtain ⟨hscoped, htenant⟩ := hstamped o ho hnew₀
    refine ⟨hedit.model ▸ hscoped, ?_⟩
    rcases hedit.tenant with heq | ⟨tenant, he, -⟩ | ⟨hstate, -⟩
    · rw [Obj.tenantId, heq]
      exact htenant
    · exact absurd he (hassign tenant)
    · simp [Obj.isNew, hstate] at hnew₀
  | load ho hr =>
    refine hset fun heq _ => ?_
    subst heq
    simp [ho] at ho₀
  | flush defaultSiteId accepted =>
    exact hstamped.flush h ⟨o₀, ho₀, hnew₀⟩ defaultSiteId accepted
  | commit =>
    intro o ho hnew
    obtain ⟨o', ho', hcommit⟩ := Option.bind_eq_some_iff.mp ho
    obtain ⟨-, rfl⟩ : o'.state ≠ .deleted ∧ { o' with inserted := false } = o := by
      simpa [Obj.committed] using hcommit
    exact hstamped o' ho' hnew
  | rollback =>
    intro o ho hnew
    obtain ⟨o', -, rfl⟩ := Option.map_eq_some_iff.mp ho
    simp [isNew_rolledBack] at hnew

/-- **Objects of another tenant** are refused: nothing is written, and the object keeps its
tenant. -/
theorem refused_of_stamped {A B : ℕ} (h : s.Inv) (hpending : s.Pending id)
    (hstamped : s.Stamped id A) (hctx : s.effectiveContext = some (.tenant B)) (hne : B ≠ A)
    (defaultSiteId : ℕ → Option ℕ) (accepted : Bool) :
    ∃ error, (s.flush defaultSiteId accepted).refused = some error ∧
      (s.flush defaultSiteId accepted).writes = [] ∧
      (s.flush defaultSiteId accepted).session.row = s.row ∧
      ∃ o, (s.flush defaultSiteId accepted).session.obj id = some o ∧ o.tenantId = some A := by
  have hsystem : ¬s.InSystemScope := by
    rintro ⟨scope, reason, audit, heq⟩
    simp [hctx] at heq
  have hctx' (scope : ℕ) (reason : String) (audit : Bool) :
      s.effectiveContext ≠ some (.system scope reason audit) :=
    fun heq => hsystem ⟨scope, reason, audit, heq⟩
  obtain ⟨o, ho, hnew⟩ := hpending
  have hsome : ((s.checkAllNew s.effectiveContext defaultSiteId).1.obj id).isSome = true :=
    isSome_forObjects (by rw [ho]; rfl)
  obtain ⟨o', ho'⟩ := Option.isSome_iff_exists.mp hsome
  have hnew' : o'.isNew = true := by
    obtain ⟨o₁, ho₁, hcases⟩ := forObjects_cases (s.nodup_objects _) ho'
    obtain rfl : o = o₁ := Option.some.inj (ho.symm.trans ho₁)
    rcases hcases with rfl | ⟨-, rfl⟩
    · exact hnew
    · obtain ⟨a, b, hframe, -⟩ := checkNew_frame s.effectiveContext defaultSiteId o
      rw [hframe]
      exact hnew
  obtain ⟨hscoped, htenant⟩ := hstamped.checkAllNew s.effectiveContext defaultSiteId o' ho' hnew'
  cases hok : (s.checkAllNew s.effectiveContext defaultSiteId).2 with
  | none =>
    -- an object that passes has the tenant of the context
    obtain ⟨t, ht, htid⟩ := checkAllNew_ok h hctx' hok ho' hscoped hnew'
    obtain rfl : B = t := by simpa [hctx] using ht
    exact absurd (Option.some.inj (htid.symm.trans htenant)) hne
  | some error =>
    have hbefore : s.beforeFlush defaultSiteId =
        ((s.checkAllNew s.effectiveContext defaultSiteId).1, some error) := by
      rw [beforeFlush_of_not_system hsystem, hok]
    rw [flush_of_refused (congrArg Prod.snd hbefore), hbefore]
    exact ⟨error, rfl, rfl, (s.checkAllNew_rows _ _).1, o', ho', htenant⟩

theorem inv_of_run {rows : List Row} {l : List Event} (hrun : Run Step (init rows) l s) : s.Inv :=
  hrun.invariant (fun _ _ _ hinv hstep => hinv.step hstep) (inv_init rows)

/-- A pending object keeps the tenant it was stamped with, over any run that assigns it none. -/
theorem Stamped.run {A : ℕ} {l : List Event} (h : s.Inv) (hstamped : s.Stamped id A)
    (hrun : Run (Guarded (LeavesPending id) Step) s l s') : s'.Inv ∧ s'.Stamped id A :=
  hrun.invariant (I := fun s => s.Inv ∧ s.Stamped id A)
    (fun _ _ _ hinv hstep => ⟨hinv.1.step hstep.2, hinv.2.step hinv.1 hstep.1 hstep.2⟩)
    ⟨h, hstamped⟩

/-- The stamp of an object that is added without a tenant. -/
theorem stamped_of_add {A : ℕ} (ho : s.obj id = some o) (hstate : o.state = .transient)
    (hscoped : o.model.tenantScoped = true) (hnone : o.tenantId = none)
    (hctx : s.effectiveContext = some (.tenant A)) (hstep : Step s (.add id) s') :
    s'.Stamped id A := by
  obtain rfl : s.add id o = s' := by simpa [Step, step, ho] using hstep
  have hpending : onPending s.effectiveContext o = o.setTenant (some A) := by
    simp [onPending, hscoped, hnone, hctx]
  intro o' ho' _
  obtain rfl : { o.setTenant (some A) with state := .pending } = o' := by
    simpa [Session.add, hstate, hpending] using ho'
  exact ⟨hscoped, rfl⟩

/-- **Write isolation.** In every state that a session reaches:

* outside system scope, the rows that a flush writes to belong, before and after, to the tenant of
  the context or, where their model allows it, to none; so without a context no row of a tenant is
  written;
* a row that a flush changes is one that it writes to;
* outside system scope no event changes the tenant of a row;
* an object that becomes pending for a tenant, without one of its own, is refused by every flush
  for another tenant while it is pending and its tenant is not assigned.

A rollback, also that of a flush the database refuses, restores the rows of the last commit. -/
theorem write_isolation {rows : List Row} {l : List Event} (hrun : Run Step (init rows) l s) :
    (∀ defaultSiteId accepted, ¬s.InSystemScope →
      ∀ w ∈ (s.flush defaultSiteId accepted).writes, ∀ c ∈ w.columns,
        c.model.tenantScoped = true →
          ∃ t, s.effectiveContext = some (.tenant t) ∧ c.BelongsTo t) ∧
    (∀ defaultSiteId accepted, (s.flush defaultSiteId accepted).session.row = s.saved ∨
      ∀ id, (s.flush defaultSiteId accepted).session.row id ≠ s.row id →
        ∃ w ∈ (s.flush defaultSiteId accepted).writes, w.id = id) ∧
    (∀ e s', Step s e s' → ¬s.InSystemScope → s'.row = s.saved ∨
      ∀ id r r', s.row id = some r → s'.row id = some r' → r.model.tenantScoped = true →
        r'.tenant = r.tenant) ∧
    (∀ id o A B s₁ l' u, s.obj id = some o → o.state = .transient →
      o.model.tenantScoped = true → o.tenantId = none → s.effectiveContext = some (.tenant A) →
      Step s (.add id) s₁ → Run (Guarded (LeavesPending id) Step) s₁ l' u → u.Pending id →
      u.effectiveContext = some (.tenant B) → B ≠ A → ∀ defaultSiteId accepted,
        ∃ error, (u.flush defaultSiteId accepted).refused = some error ∧
          (u.flush defaultSiteId accepted).writes = [] ∧
          (u.flush defaultSiteId accepted).session.row = u.row ∧
          ∃ o, (u.flush defaultSiteId accepted).session.obj id = some o ∧
            o.tenantId = some A) := by
  have h := inv_of_run hrun
  refine ⟨?_, ?_, ?_, ?_⟩
  · intro defaultSiteId accepted hsystem w hw c hc hscoped
    exact belongsTo_of_mem_writes h hsystem hw hc hscoped
  · exact mem_writes_of_row_ne h
  · intro e s' hstep hsystem
    exact tenant_eq_of_step h hsystem hstep
  · intro id o A B s₁ l' u ho hstate hscoped hnone hctx hadd hrun' hpending hctx' hne
    have hstamped := stamped_of_add ho hstate hscoped hnone hctx hadd
    obtain ⟨hinv, hu⟩ := hstamped.run (h.step hadd) hrun'
    exact refused_of_stamped hinv hpending hu hctx' hne

/-- A model of the source, for the samples. -/
def sampleModel : Model := ⟨"IncidentEvent", "incident_events", true, false, false⟩

/-- A session with a new object, made for tenant 1. -/
def sampleStart : Session :=
  { init [] with current := some (.tenant 1) }.create sampleModel none none

/-- The object is pending. -/
def sampleAdded : Session := sampleStart.add 0 (.make sampleModel none none)

/-- The code now acts for tenant 2. -/
def sampleOther : Session := { sampleAdded with current := some (.tenant 2) }

/-- The flush for tenant 2 is refused. -/
theorem write_isolation_other_tenant :
    Run Step (init []) [.setContext (some (.tenant 1)), .create sampleModel none none] sampleStart ∧
      Step sampleStart (.add 0) sampleAdded ∧
      ∃ error, (sampleOther.flush (fun _ => none) true).refused = some error ∧
        (sampleOther.flush (fun _ => none) true).writes = [] := by
  have hrun : Run Step (init []) [.setContext (some (.tenant 1)), .create sampleModel none none]
      sampleStart := .cons rfl (.cons rfl (.nil _))
  have hadd : Step sampleStart (.add 0) sampleAdded := rfl
  have hleave : Run (Guarded (LeavesPending 0) Step) sampleAdded [.setContext (some (.tenant 2))]
      sampleOther := .single ⟨⟨⟨_, rfl, rfl⟩, fun _ => by simp⟩, rfl⟩
  obtain ⟨error, hrefused, hwrites, -⟩ := (write_isolation hrun).2.2.2 0 _ 1 2 _ _ _ rfl rfl rfl rfl
    rfl hadd hleave ⟨_, rfl, rfl⟩ rfl (by decide) (fun _ => none) true
  exact ⟨hrun, hadd, error, hrefused, hwrites⟩

/-- Two objects that become pending for tenant 1 and are inserted for tenant 2: one that has been
given tenant 2 from the start, and one whose tenant is taken away while it is pending. -/
theorem inserted_for_other_tenant :
    (∃ s₁ u : Session,
      Run Step (init []) [.setContext (some (.tenant 1)),
        .create sampleModel (some (some 2)) none, .add 0] s₁ ∧
      s₁.effectiveContext = some (.tenant 1) ∧ s₁.Pending 0 ∧
      Run Step s₁ [.setContext (some (.tenant 2))] u ∧
      u.effectiveContext = some (.tenant 2) ∧ u.Pending 0 ∧
      (u.flush (fun _ => none) true).refused = none ∧
      (u.flush (fun _ => none) true).writes = [⟨0, none, some ⟨sampleModel, some 2, none⟩⟩]) ∧
    (∃ s₁ u : Session,
      Run Step (init []) [.setContext (some (.tenant 1)), .create sampleModel none none, .add 0] s₁ ∧
      s₁.effectiveContext = some (.tenant 1) ∧ s₁.Pending 0 ∧
      Run Step s₁ [.setTenant 0 none, .setContext (some (.tenant 2))] u ∧
      u.effectiveContext = some (.tenant 2) ∧ u.Pending 0 ∧
      (u.flush (fun _ => none) true).refused = none ∧
      (u.flush (fun _ => none) true).writes = [⟨0, none, some ⟨sampleModel, some 2, none⟩⟩]) := by
  refine ⟨⟨_, _, .cons rfl (.cons rfl (.cons rfl (.nil _))), rfl, ⟨_, rfl, rfl⟩,
    .cons rfl (.nil _), rfl, ⟨_, rfl, rfl⟩, ?_, ?_⟩, ⟨_, _, .cons rfl (.cons rfl (.cons rfl (.nil _))),
    rfl, ⟨_, rfl, rfl⟩, .cons rfl (.cons rfl (.nil _)), rfl, ⟨_, rfl, rfl⟩, ?_, ?_⟩⟩
  all_goals decide

end Session

end Nodeglow.Tenancy
