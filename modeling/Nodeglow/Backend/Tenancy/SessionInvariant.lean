import Nodeglow.Backend.Tenancy.FilterChecks

/-!
# Sessions and their rows

The filter looks at objects, the database has rows. The invariant `Session.Inv` joins the two: an
object has the model of its row, what it knows of the stored tenant is that of its row, and an
object that is yet to be inserted has no row. Every event keeps it (`Session.Inv.step`).

With the invariant, what the checks of the filter say about the objects that pass them becomes a
statement about the rows behind the objects (`Session.beforeFlush_ok`).

## Main results

* `Session.effect_of_step` — what an event can do.

Source: `backend/services/tenancy.py`, lines 752–823.
-/

namespace Nodeglow.Tenancy

/-! ### Objects and their rows -/

/-- An object with the row it stands for, now and at the last commit. -/
structure Obj.Fits (o : Obj) (row saved : Option Row) : Prop where
  model : ∀ r, row = some r ∨ saved = some r → r.model = o.model
  unsaved : o.state = .transient ∨ o.state = .pending → row = none ∧ saved = none
  inserted : o.inserted = true → saved = none
  tracks : o.state = .persistent → ∀ r, row = some r → o.tenant.Tracks r.tenant

/-- The objects fit their rows, numbers to come are not in use, and rows keep their models. -/
structure Session.Inv (s : Session) : Prop where
  fresh : ∀ id, s.next ≤ id → s.obj id = none ∧ s.row id = none ∧ s.saved id = none
  fits : ∀ id o, s.obj id = some o → o.Fits (s.row id) (s.saved id)
  model : ∀ id r r', s.row id = some r → s.saved id = some r' → r'.model = r.model

theorem Columns.toColumns_of_toRow? {c : Columns} {r : Row} (h : c.toRow? = some r) :
    r.toColumns = c := by
  obtain ⟨hnull, hr⟩ := Option.dite_none_right_eq_some.mp h
  exact congrArg Row.toColumns (Option.some.inj hr).symm

section Fits

variable {o o' : Obj} {row saved : Option Row}

theorem Obj.isDirty_of_isModified (hstate : o.state = .persistent) (hmarked : o.marked = false)
    (h : o.isModified = true) : o.isDirty = true := by
  simp only [Obj.isModified, Bool.or_eq_true] at h
  simp only [Obj.isDirty, hstate, hmarked, Bool.and_eq_true, Bool.or_eq_true]
  refine ⟨by simp, ?_⟩
  rcases h with (ht | hs) | ho
  · exact Or.inl (Or.inl (Attr.isSome_committed_of_hasChanges ht))
  · exact Or.inl (Or.inr (Attr.isSome_committed_of_hasChanges hs))
  · exact Or.inr (by cases hothers : o.others <;> simp_all)

/-- An object that keeps its state, and what it knows of its tenant. -/
theorem Obj.Fits.congr (h : o.Fits row saved) (hmodel : o'.model = o.model)
    (hstate : o'.state = o.state) (hinserted : o'.inserted = o.inserted)
    (htracks : ∀ r, row = some r → o.tenant.Tracks r.tenant → o'.tenant.Tracks r.tenant) :
    o'.Fits row saved where
  model r hr := (h.model r hr).trans hmodel.symm
  unsaved hs := h.unsaved (hstate ▸ hs)
  inserted hi := h.inserted (hinserted ▸ hi)
  tracks hs r hr := htracks r hr (h.tracks (hstate ▸ hs) r hr)

theorem Obj.Fits.flushed_pending (h : o.Fits row saved) (hstate : o.state = .pending) :
    o.flushed.Fits (o.columns.toRow?) saved := by
  have hflushed : o.flushed.state = .persistent ∧ o.flushed.model = o.model ∧
      o.flushed.tenant = .loaded o.tenantId := by simp [Obj.flushed, hstate]
  have hsaved : saved = none := (h.unsaved (Or.inr hstate)).2
  refine ⟨fun r hr => ?_, fun hs => ?_, fun _ => hsaved, fun _ r hr => ?_⟩
  · rw [hflushed.2.1]
    rcases hr with hr | hr
    · rw [Columns.toColumns_of_toRow? hr]
      rfl
    · simp [hsaved] at hr
  · simp [hflushed.1] at hs
  · rw [hflushed.2.2, Columns.toColumns_of_toRow? hr]
    exact Attr.tracks_loaded _

/-- The row of an object that is not deleted, after a flush. -/
def Obj.rowAfter (o : Obj) (r : Row) : Option Row :=
  if o.isModified then (o.updated r).toRow? else some r

theorem Obj.rowAfter_eq {r r' : Row} (h : o.rowAfter r = some r') :
    r'.model = r.model ∧ r'.tenant = o.tenant.stored r.tenant := by
  unfold Obj.rowAfter at h
  split_ifs at h with hmodified
  · rw [Columns.toColumns_of_toRow? h]
    exact ⟨rfl, rfl⟩
  · obtain rfl := Option.some.inj h
    have hchange : o.tenant.hasChanges = false := by
      simp only [Obj.isModified, Bool.or_eq_true, not_or, Bool.not_eq_true] at hmodified
      exact hmodified.1.1
    exact ⟨rfl, by simp [Attr.stored, hchange]⟩

/-- The object after a flush, when its row is updated, and when nothing is written. -/
theorem Obj.Fits.flushed_persistent (h : o.Fits row saved) (hstate : o.state = .persistent)
    (hmarked : o.marked = false) : o.flushed.Fits (row.bind o.rowAfter) saved := by
  have hflushed : o.flushed.state = .persistent ∧ o.flushed.model = o.model ∧
      o.flushed.inserted = o.inserted ∧ o.flushed.tenant = o.tenant.commit := by
    simp [Obj.flushed, hstate, hmarked]
  refine ⟨fun r' hr' => ?_, fun hs => ?_, fun hi => ?_, fun _ r' hr' => ?_⟩
  · rw [hflushed.2.1]
    rcases hr' with hr' | hr'
    · obtain ⟨r, hr, hafter⟩ := Option.bind_eq_some_iff.mp hr'
      exact (Obj.rowAfter_eq hafter).1.trans (h.model r (Or.inl hr))
    · exact h.model r' (Or.inr hr')
  · simp [hflushed.1] at hs
  · exact h.inserted (hflushed.2.2.1 ▸ hi)
  · obtain ⟨r, hr, hafter⟩ := Option.bind_eq_some_iff.mp hr'
    rw [hflushed.2.2.2, (Obj.rowAfter_eq hafter).2]
    exact (h.tracks hstate r hr).commit

/-- The object after a flush that has deleted its row. -/
theorem Obj.Fits.flushed_marked (h : o.Fits row saved) (hstate : o.state = .persistent)
    (hmarked : o.marked = true) : o.flushed.Fits none saved := by
  have heq : o.flushed = { o with state := .deleted, marked := false } := by
    simp [Obj.flushed, hstate, hmarked]
  rw [heq]
  refine ⟨fun r hr => h.model r (Or.inr (by simpa using hr)), fun hs => by simp at hs, h.inserted,
    fun hs => by simp at hs⟩

theorem Obj.Fits.rolledBack (h : o.Fits row saved) : o.rolledBack.Fits saved saved := by
  have hmodel : ∀ r, saved = some r ∨ saved = some r → r.model = o.model :=
    fun r hr => h.model r (Or.inr (or_self_iff.mp hr))
  have hback (hgone : o.state = .persistent ∨ o.state = .deleted) : o.rolledBack =
      if o.inserted then { o with state := .transient, marked := false, inserted := false }
      else { o.expired with state := .persistent } := by
    rcases hgone with hs | hs <;> simp [Obj.rolledBack, hs]
  cases hstate : o.state with
  | transient =>
    have hsaved := (h.unsaved (Or.inl hstate)).2
    have heq : o.rolledBack = o := by simp [Obj.rolledBack, hstate]
    rw [heq]
    exact ⟨hmodel, fun _ => ⟨hsaved, hsaved⟩, h.inserted, fun hs => by simp [hstate] at hs⟩
  | pending =>
    have hsaved := (h.unsaved (Or.inr hstate)).2
    have heq : o.rolledBack = { o with state := .transient } := by simp [Obj.rolledBack, hstate]
    rw [heq]
    exact ⟨hmodel, fun _ => ⟨hsaved, hsaved⟩, h.inserted, fun hs => by simp at hs⟩
  | persistent | deleted =>
    rw [hback (by simp [hstate])]
    split_ifs with hinserted
    · have hsaved := h.inserted hinserted
      exact ⟨hmodel, fun _ => ⟨hsaved, hsaved⟩, fun hi => by simp at hi, fun hs => by simp at hs⟩
    · refine ⟨hmodel, fun hs => by simp at hs, fun hi => absurd hi hinserted, fun _ r _ => ?_⟩
      exact Attr.tracks_unset r.tenant

end Fits

namespace Session

variable {s s' : Session} {id : ℕ} {o : Obj}

theorem inv_init (rows : List Row) : (init rows).Inv where
  fresh id hid := by simpa [init] using hid
  fits id o ho := by simp [init] at ho
  model id r r' hr hr' := congrArg (·.model) (Option.some.inj (hr'.symm.trans hr))

theorem Inv.lt_next (h : s.Inv) (ho : s.obj id = some o) : id < s.next := by
  by_contra hid
  simp [(h.fresh id (not_lt.mp hid)).1] at ho

/-- An object is replaced by one that fits its row. -/
theorem Inv.setObj (h : s.Inv) (hid : id < s.next) (ho : o.Fits (s.row id) (s.saved id)) :
    (s.setObj id o).Inv where
  fresh id' hid' := by
    have hne : id' ≠ id := (hid.trans_le hid').ne'
    simpa [Session.setObj, hne] using h.fresh id' hid'
  fits id' o' ho' := by
    by_cases hne : id' = id
    · subst hne
      obtain rfl : o = o' := by simpa [Session.setObj] using ho'
      exact ho
    · exact h.fits id' o' (by simpa [Session.setObj, hne] using ho')
  model := h.model

theorem Inv.create (h : s.Inv) (model : Model) (tenant site : Option (Option ℕ)) :
    (s.create model tenant site).Inv where
  fresh id hid := by
    have hne : id ≠ s.next := (Nat.lt_of_succ_le hid).ne'
    simpa [Session.create, hne] using h.fresh id (Nat.le_of_succ_le hid)
  fits id o ho := by
    by_cases hid : id = s.next
    · subst hid
      obtain ⟨-, hrow, hsaved⟩ := h.fresh s.next le_rfl
      obtain rfl : _ = o := by simpa [Session.create] using ho
      refine ⟨fun r hr => ?_, fun _ => ⟨hrow, hsaved⟩, fun hi => by simp [Obj.make] at hi,
        fun hs => by simp [Obj.make] at hs⟩
      have hr : s.row s.next = some r ∨ s.saved s.next = some r := hr
      simp [hrow, hsaved] at hr
    · exact h.fits id o (by simpa [Session.create, hid] using ho)
  model := h.model

theorem Inv.add (h : s.Inv) (ho : s.obj id = some o) : (s.add id o).Inv := by
  have hfits := h.fits id o ho
  unfold Session.add
  split
  · next hstate =>
    obtain ⟨a, ha⟩ := onPending_frame s.effectiveContext o
    refine h.setObj (h.lt_next ho) ?_
    rw [ha]
    exact ⟨hfits.model, fun _ => hfits.unsaved (Or.inl hstate), hfits.inserted,
      fun hs => by simp at hs⟩
  · exact h.setObj (h.lt_next ho) (hfits.congr rfl rfl rfl fun _ _ ht => ht)

/-! ### The loops of the filter -/

variable {check : ℕ → Obj → Obj × Option String} {ids : List ℕ}

/-- **A loop of the filter** keeps the invariant. -/
theorem Inv.forObjects (h : s.Inv) (hnodup : ids.Nodup)
    (hkeeps : ∀ id o, o.Fits (s.row id) (s.saved id) →
      (check id o).1.Fits (s.row id) (s.saved id)) :
    (forObjects check ids s).1.Inv := by
  obtain ⟨f, hf⟩ := forObjects_frame check ids s
  have hobj (id : ℕ) (o : Obj) (ho : f id = some o) : ∃ o', s.obj id = some o' ∧
      (o = o' ∨ (id ∈ ids ∧ o = (check id o').1)) :=
    forObjects_cases hnodup (by rw [hf]; exact ho)
  rw [hf]
  refine ⟨fun id hid => ?_, fun id o ho => ?_, h.model⟩
  · obtain ⟨hnone, hrow⟩ := h.fresh id hid
    refine ⟨?_, hrow⟩
    cases ho : f id with
    | none => exact ho
    | some o =>
      obtain ⟨o', ho', -⟩ := hobj id o ho
      simp [hnone] at ho'
  · obtain ⟨o', ho', rfl | ⟨-, rfl⟩⟩ := hobj id o ho
    · exact h.fits id o ho'
    · exact hkeeps id o' (h.fits id o' ho')

theorem mem_objects {p : Obj → Bool} (h : s.Inv) (ho : s.obj id = some o) :
    id ∈ s.objects p ↔ p o = true := by
  simp [objects, ho, h.lt_next ho]

theorem Inv.checkAllNew (h : s.Inv) (ctx : Option TenantContext)
    (defaultSiteId : ℕ → Option ℕ) :
    (s.checkAllNew ctx defaultSiteId).1.Inv := by
  refine h.forObjects (s.nodup_objects _) fun id o hfits => ?_
  obtain ⟨a, b, heq, ha⟩ := checkNew_frame ctx defaultSiteId o
  rw [heq]
  refine hfits.congr rfl rfl rfl fun r _ htracks => ?_
  rcases ha with rfl | ⟨-, t, rfl⟩
  · exact htracks
  · exact htracks.set (some t)

theorem Inv.checkAllOld (h : s.Inv) (ctx : Option TenantContext) :
    (s.checkAllOld ctx).1.Inv := by
  refine h.forObjects s.nodup_dirty_append_deleted fun id o hfits => ?_
  obtain ⟨a, heq, ha⟩ := checkOld_frame ctx (s.row id) o
  rw [heq]
  refine hfits.congr rfl rfl rfl fun r hr htracks => ?_
  rcases ha with rfl | ⟨r', hr', rfl⟩
  · exact htracks
  · obtain rfl : r = r' := Option.some.inj (hr.symm.trans hr')
    exact htracks.load

theorem Inv.addNew (h : s.Inv) (model : Model) (tenant site : Option (Option ℕ)) :
    (s.addNew model tenant site).Inv :=
  (h.create model tenant site).add (by simp [Session.create])

theorem addNew_frame (h : s.Inv) (model : Model) (tenant site : Option (Option ℕ))
    (ho : s.obj id = some o) : (s.addNew model tenant site).obj id = some o := by
  have hne : id ≠ s.next := (h.lt_next ho).ne
  simpa [addNew, Session.add, Obj.make, Session.setObj, Session.create, hne] using ho

/-- Audit entries come on top of the objects of a session. -/
theorem auditSystemWrite_frame (h : s.Inv) (scope : ℕ) (reason : String) (l : List (Option ℕ)) :
    (auditSystemWrite scope reason l s).Inv ∧
      (auditSystemWrite scope reason l s).row = s.row ∧
      (auditSystemWrite scope reason l s).saved = s.saved ∧
      (∀ id o, s.obj id = some o → (auditSystemWrite scope reason l s).obj id = some o) := by
  induction l generalizing s with
  | nil => exact ⟨h, rfl, rfl, fun _ _ => id⟩
  | cons tid rest ih =>
    rw [auditSystemWrite]
    split_ifs
    · exact ih h
    · have haudited : { s with audited := (scope, reason, tid) :: s.audited }.Inv :=
        ⟨h.fresh, h.fits, h.model⟩
      obtain ⟨hinv, hrow, hsaved, hobj⟩ := ih (haudited.addNew auditLog (some tid) none)
      refine ⟨hinv, hrow, hsaved, fun id o ho => hobj id o ?_⟩
      exact addNew_frame haudited auditLog (some tid) none ho

theorem audit_of_not_system (h : ¬s.InSystemScope) : s.audit = s := by
  unfold audit
  split
  · next scope reason hctx => exact absurd ⟨scope, reason, true, hctx⟩ h
  · rfl

theorem audit_frame (h : s.Inv) :
    s.audit.Inv ∧ s.audit.row = s.row ∧ s.audit.saved = s.saved ∧
      ∀ id o, s.obj id = some o → s.audit.obj id = some o := by
  unfold audit
  split
  · exact auditSystemWrite_frame h _ _ _
  · exact ⟨h, rfl, rfl, fun _ _ => id⟩

/-- Outside system scope both loops are run. -/
theorem beforeFlush_of_not_system (h : ¬s.InSystemScope) (defaultSiteId : ℕ → Option ℕ) :
    s.beforeFlush defaultSiteId =
      match (s.checkAllNew s.effectiveContext defaultSiteId).2 with
      | some error => ((s.checkAllNew s.effectiveContext defaultSiteId).1, some error)
      | none => (s.checkAllNew s.effectiveContext defaultSiteId).1.checkAllOld s.effectiveContext := by
  rw [beforeFlush, audit_of_not_system h]
  cases (s.checkAllNew s.effectiveContext defaultSiteId).2 with
  | some error => rfl
  | none =>
    rcases hctx : s.effectiveContext with _ | t | ⟨scope, reason, audit⟩
    · rfl
    · rfl
    · exact absurd ⟨scope, reason, audit, hctx⟩ h

theorem beforeFlush_cases (s : Session) (defaultSiteId : ℕ → Option ℕ) :
    (s.beforeFlush defaultSiteId).1 = (s.audit.checkAllNew s.effectiveContext defaultSiteId).1 ∨
      (s.beforeFlush defaultSiteId).1 =
        ((s.audit.checkAllNew s.effectiveContext defaultSiteId).1.checkAllOld s.effectiveContext).1 := by
  unfold beforeFlush
  dsimp only
  split
  · exact Or.inl rfl
  · exact Or.inl rfl
  · exact Or.inr rfl

/-- **`_before_flush`** keeps the invariant and the rows. -/
theorem Inv.beforeFlush (h : s.Inv) (defaultSiteId : ℕ → Option ℕ) :
    (s.beforeFlush defaultSiteId).1.Inv ∧ (s.beforeFlush defaultSiteId).1.row = s.row ∧
      (s.beforeFlush defaultSiteId).1.saved = s.saved := by
  obtain ⟨haudit, hrow, hsaved, -⟩ := audit_frame h
  have hnew := haudit.checkAllNew s.effectiveContext defaultSiteId
  obtain ⟨hnewRow, hnewSaved⟩ := checkAllNew_rows s.audit s.effectiveContext defaultSiteId
  rcases s.beforeFlush_cases defaultSiteId with heq | heq
  · rw [heq]
    exact ⟨hnew, hnewRow.trans hrow, hnewSaved.trans hsaved⟩
  · rw [heq]
    obtain ⟨holdRow, holdSaved⟩ := checkAllOld_rows
      (s.audit.checkAllNew s.effectiveContext defaultSiteId).1 s.effectiveContext
    exact ⟨hnew.checkAllOld s.effectiveContext, holdRow.trans (hnewRow.trans hrow),
      holdSaved.trans (hnewSaved.trans hsaved)⟩

theorem checkAllNew_ok {ctx : Option TenantContext} {defaultSiteId : ℕ → Option ℕ} (h : s.Inv)
    (hsystem : ∀ scope reason audit, ctx ≠ some (.system scope reason audit))
    (hok : (s.checkAllNew ctx defaultSiteId).2 = none)
    (ho : (s.checkAllNew ctx defaultSiteId).1.obj id = some o)
    (hscoped : o.model.tenantScoped = true) (hnew : o.isNew = true) :
    ∃ t, ctx = some (.tenant t) ∧ o.tenantId = some t := by
  obtain ⟨o', ho', -⟩ := forObjects_cases (s.nodup_objects _) ho
  obtain ⟨a, b, hframe, -⟩ := checkNew_frame ctx defaultSiteId o'
  have hmem : id ∈ s.objects Obj.isNew := by
    by_contra hmem
    rw [checkAllNew, forObjects_obj_of_notMem hmem] at ho
    exact hmem ((mem_objects h ho).mpr hnew)
  obtain ⟨hcheck, heq⟩ := forObjects_ok (s.nodup_objects _) hok hmem ho'
  obtain rfl : (checkNew ctx defaultSiteId o').1 = o := Option.some.inj (heq.symm.trans ho)
  exact checkNew_ok (by rwa [hframe] at hscoped) hsystem hcheck

theorem checkAllOld_obj_of_isNew {ctx : Option TenantContext} (h : s.Inv)
    (ho : (s.checkAllOld ctx).1.obj id = some o) (hnew : o.isNew = true) : s.obj id = some o := by
  obtain ⟨o', ho', hcases⟩ := forObjects_cases s.nodup_dirty_append_deleted ho
  obtain ⟨a, hframe, -⟩ := checkOld_frame ctx (s.row id) o'
  rcases hcases with rfl | ⟨hmem, rfl⟩
  · exact ho'
  · have hpending : o'.state = .pending := by simpa [hframe, Obj.isNew] using hnew
    rw [List.mem_append, mem_objects h ho', mem_objects h ho'] at hmem
    simp [Obj.isDirty, Obj.isDeleted, hpending] at hmem

theorem checkAllOld_ok {ctx : Option TenantContext} {r : Row} (h : s.Inv)
    (hok : (s.checkAllOld ctx).2 = none) (ho : (s.checkAllOld ctx).1.obj id = some o)
    (hscoped : o.model.tenantScoped = true) (hr : s.row id = some r)
    (hold : o.isDeleted = true ∨ (o.isDirty = true ∧ o.isModified = true)) :
    o.tenant.hasChanges = false ∧
      ∃ t, ctx = some (.tenant t) ∧ (r.tenant = none ∨ r.tenant = some t) := by
  have hmem : id ∈ s.objects Obj.isDirty ++ s.objects Obj.isDeleted := by
    by_contra hmem
    rw [checkAllOld, forObjects_obj_of_notMem hmem] at ho
    rw [List.mem_append, mem_objects h ho, mem_objects h ho] at hmem
    exact hmem (hold.elim Or.inr fun hdirty => Or.inl hdirty.1)
  obtain ⟨o', ho', -⟩ := forObjects_cases s.nodup_dirty_append_deleted ho
  obtain ⟨hcheck, heq⟩ := forObjects_ok s.nodup_dirty_append_deleted hok hmem ho'
  obtain ⟨a, hframe, ha⟩ := checkOld_frame ctx (s.row id) o'
  obtain rfl : o = { o' with tenant := a } := Option.some.inj (ho.symm.trans (heq.trans (hframe ▸ rfl)))
  have hstate : o'.state = .persistent := by
    rcases hold with hold | ⟨hold, -⟩
    · simp only [Obj.isDeleted, Bool.and_eq_true, decide_eq_true_eq] at hold
      exact hold.1
    · simp only [Obj.isDirty, Bool.and_eq_true, decide_eq_true_eq] at hold
      exact hold.1.1
  -- loading the tenant adds no change
  have hload (hno : o'.tenant.hasChanges = false) : a.hasChanges = false := by
    rcases ha with rfl | ⟨r', -, rfl⟩
    · exact hno
    · exact Attr.hasChanges_load hno r'.tenant
  have hchanged (hdirty : o'.isDirty = true) : o'.isModified = true := by
    rcases hold with hold | ⟨-, hold⟩
    · have hmarked : o'.marked = true := by
        simp only [Obj.isDeleted, Bool.and_eq_true] at hold
        exact hold.2
      simp [Obj.isDirty, hmarked] at hdirty
    · by_contra hno
      simp only [Obj.isModified, Bool.or_eq_true, not_or, Bool.not_eq_true] at hno
      simp [Obj.isModified, hload hno.1.1, hno.1.2, hno.2] at hold
  have hscoped : o'.model.tenantScoped = true := hscoped
  have htracks := (h.fits id o' ho').tracks hstate r hr
  rw [hr] at hcheck
  obtain ⟨hno, hctx⟩ := checkOld_ok hscoped hstate htracks hchanged hcheck
  exact ⟨hload hno, hctx⟩

/-- **What passes the filter outside system scope.** A new object has the tenant of the context. A
changed or deleted one shows no change of its tenant, and its row is of the tenant of the context or
of none. -/
theorem beforeFlush_ok {defaultSiteId : ℕ → Option ℕ} (h : s.Inv) (hsystem : ¬s.InSystemScope)
    (hok : (s.beforeFlush defaultSiteId).2 = none)
    (ho : (s.beforeFlush defaultSiteId).1.obj id = some o) (hscoped : o.model.tenantScoped = true) :
    (o.isNew = true →
      ∃ t, s.effectiveContext = some (.tenant t) ∧ o.tenantId = some t) ∧
    (∀ r, s.row id = some r → (o.isDeleted = true ∨ (o.isDirty = true ∧ o.isModified = true)) →
      o.tenant.hasChanges = false ∧
        ∃ t, s.effectiveContext = some (.tenant t) ∧ (r.tenant = none ∨ r.tenant = some t)) := by
  have hctx (scope : ℕ) (reason : String) (audit : Bool) :
      s.effectiveContext ≠ some (.system scope reason audit) :=
    fun heq => hsystem ⟨scope, reason, audit, heq⟩
  have hinv := h.checkAllNew s.effectiveContext defaultSiteId
  obtain ⟨hrow, -⟩ := s.checkAllNew_rows s.effectiveContext defaultSiteId
  rw [beforeFlush_of_not_system hsystem] at hok ho
  cases hnew : (s.checkAllNew s.effectiveContext defaultSiteId).2 with
  | some error => simp [hnew] at hok
  | none =>
    rw [hnew] at hok ho
    refine ⟨fun hisNew => ?_, fun r hr hold => ?_⟩
    · exact checkAllNew_ok h hctx hnew (checkAllOld_obj_of_isNew hinv ho hisNew) hscoped hisNew
    · exact checkAllOld_ok hinv hok ho hscoped (by rw [hrow, hr]) hold

/-! ### What a flush writes -/

/-- The three kinds of statements. -/
theorem write?_cases {w : Write} (hw : s.write? id = some w) :
    ∃ o, s.obj id = some o ∧
      ((o.isNew = true ∧ w = ⟨id, none, some o.columns⟩) ∨
        ∃ r, s.row id = some r ∧
          ((o.isDeleted = true ∧ w = ⟨id, some r.toColumns, none⟩) ∨
            ((o.isDirty = true ∧ o.isModified = true) ∧
              w = ⟨id, some r.toColumns, some (o.updated r)⟩))) := by
  unfold write? at hw
  split at hw
  · cases hw
  · next o ho =>
    refine ⟨o, ho, ?_⟩
    split at hw
    · next hnew => exact Or.inl ⟨hnew, (Option.some.inj hw).symm⟩
    · split at hw
      · cases hw
      · next r hr =>
        refine Or.inr ⟨r, hr, ?_⟩
        split_ifs at hw with hdeleted hmodified
        · exact Or.inl ⟨hdeleted, (Option.some.inj hw).symm⟩
        · exact Or.inr ⟨by simpa using hmodified, (Option.some.inj hw).symm⟩

theorem flushed_row_of_marked (ho : s.obj id = some o) (hstate : o.state = .persistent)
    (hmarked : o.marked = true) : s.flushed.row id = none := by
  cases hr : s.row id <;>
    simp [Session.flushed, write?, ho, hr, Obj.isNew, Obj.isDeleted, hstate, hmarked]

theorem flushed_row_of_persistent (ho : s.obj id = some o) (hstate : o.state = .persistent)
    (hmarked : o.marked = false) : s.flushed.row id = (s.row id).bind o.rowAfter := by
  cases hr : s.row id with
  | none => simp [Session.flushed, write?, ho, hr, Obj.isNew, hstate]
  | some r =>
    cases hmodified : o.isModified with
    | true =>
      have hdirty := Obj.isDirty_of_isModified hstate hmarked hmodified
      simp [Session.flushed, write?, ho, hr, Obj.isNew, Obj.isDeleted, hstate, hmarked, hmodified,
        hdirty, Obj.rowAfter]
    | false =>
      simp [Session.flushed, write?, ho, hr, Obj.isNew, Obj.isDeleted, hstate, hmarked, hmodified,
        Obj.rowAfter]

/-- The object of a row after a flush. -/
theorem Inv.fits_flushed (h : s.Inv) (ho : s.obj id = some o) :
    o.flushed.Fits (s.flushed.row id) (s.saved id) := by
  have hfits := h.fits id o ho
  cases hstate : o.state with
  | pending =>
    have hrow : s.flushed.row id = o.columns.toRow? := by
      simp [Session.flushed, write?, ho, Obj.isNew, hstate]
    exact hrow ▸ hfits.flushed_pending hstate
  | persistent =>
    cases hmarked : o.marked with
    | true => exact flushed_row_of_marked ho hstate hmarked ▸ hfits.flushed_marked hstate hmarked
    | false =>
      exact flushed_row_of_persistent ho hstate hmarked ▸ hfits.flushed_persistent hstate hmarked
  | transient | deleted =>
    have heq : o.flushed = o := by simp [Obj.flushed, hstate]
    have hrow : s.flushed.row id = s.row id := by
      cases hr : s.row id <;>
        simp [Session.flushed, write?, ho, hr, Obj.isNew, Obj.isDeleted, Obj.isDirty, hstate]
    rwa [heq, hrow]

theorem Inv.flushed (h : s.Inv) : s.flushed.Inv := by
  have hnone (id : ℕ) (ho : s.obj id = none) : s.flushed.row id = s.row id := by
    simp [Session.flushed, write?, ho]
  refine ⟨fun id hid => ?_, fun id o' ho' => ?_, fun id r r' hr hr' => ?_⟩
  · obtain ⟨hobj, hrow, hsaved⟩ := h.fresh id hid
    exact ⟨by simp [Session.flushed, hobj], (hnone id hobj).trans hrow, hsaved⟩
  · obtain ⟨o, ho, rfl⟩ : ∃ o, s.obj id = some o ∧ o.flushed = o' := by
      simpa [Session.flushed] using ho'
    exact h.fits_flushed ho
  · cases ho : s.obj id with
    | none => exact h.model id r r' ((hnone id ho).symm.trans hr) hr'
    | some o =>
      have hfits := h.fits_flushed ho
      exact (hfits.model r' (Or.inr hr')).trans (hfits.model r (Or.inl hr)).symm

theorem Inv.rollback (h : s.Inv) : s.rollback.Inv := by
  refine ⟨fun id hid => ?_, fun id o' ho' => ?_, fun id r r' hr hr' => ?_⟩
  · obtain ⟨hobj, hrow, hsaved⟩ := h.fresh id hid
    simp [Session.rollback, hobj, hsaved]
  · obtain ⟨o, ho, rfl⟩ : ∃ o, s.obj id = some o ∧ o.rolledBack = o' := by
      simpa [Session.rollback] using ho'
    exact (h.fits id o ho).rolledBack
  · exact congrArg (·.model) (Option.some.inj (hr'.symm.trans hr))

theorem Inv.commit (h : s.Inv) : s.commit.Inv := by
  refine ⟨fun id hid => ?_, fun id o' ho' => ?_, fun id r r' hr hr' => ?_⟩
  · obtain ⟨hobj, hrow, hsaved⟩ := h.fresh id hid
    simp [Session.commit, hobj, hrow]
  · obtain ⟨o, ho, hcommit⟩ : ∃ o, s.obj id = some o ∧ o.committed = some o' := by
      simpa [Session.commit, Option.bind_eq_some_iff] using ho'
    obtain ⟨-, rfl⟩ : o.state ≠ .deleted ∧ { o with inserted := false } = o' := by
      simpa [Obj.committed] using hcommit
    have hfits := h.fits id o ho
    refine ⟨fun r hr => hfits.model r (Or.inl (or_self_iff.mp hr)), fun hs => ?_,
      fun hi => ?_, hfits.tracks⟩
    · exact ⟨(hfits.unsaved hs).1, (hfits.unsaved hs).1⟩
    · simp at hi
  · exact congrArg (·.model) (Option.some.inj (hr'.symm.trans hr))

theorem flush_of_refused {defaultSiteId : ℕ → Option ℕ} {error : String}
    (h : (s.beforeFlush defaultSiteId).2 = some error) (accepted : Bool) :
    s.flush defaultSiteId accepted = ⟨(s.beforeFlush defaultSiteId).1, some error, []⟩ := by
  have hpair : s.beforeFlush defaultSiteId = ((s.beforeFlush defaultSiteId).1, some error) :=
    Prod.ext rfl h
  rw [Session.flush, hpair]

/-- A flush that the filter lets pass: the rows that the statements ask for, or a rollback. -/
theorem flush_of_ok {defaultSiteId : ℕ → Option ℕ} (h : (s.beforeFlush defaultSiteId).2 = none)
    (accepted : Bool) :
    (s.flush defaultSiteId accepted).writes = (s.beforeFlush defaultSiteId).1.writes ∧
      ((s.flush defaultSiteId accepted).session = (s.beforeFlush defaultSiteId).1.flushed ∨
        (s.flush defaultSiteId accepted).session = (s.beforeFlush defaultSiteId).1.rollback) := by
  have hpair : s.beforeFlush defaultSiteId = ((s.beforeFlush defaultSiteId).1, none) :=
    Prod.ext rfl h
  rw [Session.flush, hpair]
  refine ⟨rfl, ?_⟩
  dsimp only
  split_ifs
  · exact Or.inl rfl
  · exact Or.inr rfl

theorem Inv.flush (h : s.Inv) (defaultSiteId : ℕ → Option ℕ) (accepted : Bool) :
    (s.flush defaultSiteId accepted).session.Inv := by
  obtain ⟨hinv, -⟩ := h.beforeFlush defaultSiteId
  cases hok : (s.beforeFlush defaultSiteId).2 with
  | some error =>
    rw [flush_of_refused hok]
    exact hinv
  | none =>
    rcases (flush_of_ok hok accepted).2 with heq | heq
    · exact heq ▸ hinv.flushed
    · exact heq ▸ hinv.rollback

/-! ### Runs -/

/-- An event that assigns, expires or loads attributes of an object, or marks it. -/
structure Edit (s : Session) (e : Event) (id : ℕ) (o o' : Obj) : Prop where
  model : o'.model = o.model
  state : o'.state = o.state
  inserted : o'.inserted = o.inserted
  tenant : o'.tenant = o.tenant ∨ (∃ tenant, e = .setTenant id tenant ∧ o'.tenant = o.tenant.set tenant) ∨
    (o.state = .persistent ∧
      (o'.tenant = .unset ∨ ∃ r, s.row id = some r ∧ o'.tenant = o.tenant.load r.tenant))

/-- What an event does to the objects and the rows. -/
inductive Effect (s : Session) (e : Event) : Session → Prop
  | scope (ctx : Option TenantContext) (bound : Option ℕ) :
      Effect s e { s with current := ctx, bound := bound }
  | create (model : Model) (tenant site : Option (Option ℕ)) :
      Effect s e (s.create model tenant site)
  | add {id : ℕ} {o : Obj} (ho : s.obj id = some o) : Effect s e (s.add id o)
  | edit {id : ℕ} {o o' : Obj} (ho : s.obj id = some o) (hedit : Edit s e id o o') :
      Effect s e (s.setObj id o')
  | load {id : ℕ} {r : Row} (ho : s.obj id = none) (hr : s.row id = some r) :
      Effect s e (s.setObj id
        ⟨r.model, .persistent, .loaded r.tenant, .loaded r.site, none, false, false⟩)
  | flush (defaultSiteId : ℕ → Option ℕ) (accepted : Bool) :
      Effect s e (s.flush defaultSiteId accepted).session
  | commit : Effect s e s.commit
  | rollback : Effect s e s.rollback

theorem effect_of_step {e : Event} (h : Step s e s') : Effect s e s' := by
  have hedit {id : ℕ} {f : Obj → Obj} (hmap : (s.obj id).map (fun o => s.setObj id (f o)) = some s')
      (hf : ∀ o, Edit s e id o (f o)) : Effect s e s' := by
    obtain ⟨o, ho, rfl⟩ := Option.map_eq_some_iff.mp hmap
    exact .edit ho (hf o)
  unfold Step step at h
  cases e with
  | setContext ctx =>
    obtain rfl := Option.some.inj h
    exact .scope ctx s.bound
  | bindSession tenant =>
    obtain rfl := Option.some.inj h
    exact .scope s.current (some tenant)
  | create model tenant site =>
    obtain rfl := Option.some.inj h
    exact .create model tenant site
  | add id =>
    obtain ⟨o, ho, rfl⟩ := Option.map_eq_some_iff.mp h
    exact .add ho
  | setTenant id tenant =>
    exact hedit h fun o => ⟨rfl, rfl, rfl, Or.inr (Or.inl ⟨tenant, rfl, rfl⟩)⟩
  | setSite id site | setOther id changed => exact hedit h fun o => ⟨rfl, rfl, rfl, Or.inl rfl⟩
  | delete id =>
    dsimp only at h
    split at h
    · next o ho =>
      split_ifs at h
      obtain rfl := Option.some.inj h
      exact .edit ho ⟨rfl, rfl, rfl, Or.inl rfl⟩
    · cases h
  | load id =>
    dsimp only at h
    split at h
    · next r ho hr =>
      obtain rfl := Option.some.inj h
      exact .load ho hr
    · cases h
  | refresh id =>
    dsimp only at h
    split at h
    · next o r ho hr =>
      split_ifs at h with hstate
      obtain rfl := Option.some.inj h
      exact .edit ho ⟨rfl, rfl, rfl, Or.inr (Or.inr ⟨hstate, Or.inr ⟨r, hr, rfl⟩⟩)⟩
    · cases h
  | expire id =>
    dsimp only at h
    split at h
    · next o ho =>
      split_ifs at h with hstate
      obtain rfl := Option.some.inj h
      exact .edit ho ⟨rfl, rfl, rfl, Or.inr (Or.inr ⟨hstate, Or.inl rfl⟩)⟩
    · cases h
  | flush defaultSiteId accepted =>
    obtain rfl := Option.some.inj h
    exact .flush defaultSiteId accepted
  | commit =>
    obtain rfl := Option.some.inj h
    exact .commit
  | rollback =>
    obtain rfl := Option.some.inj h
    exact .rollback

/-- **One event.** -/
theorem Inv.step {e : Event} (h : s.Inv) (hstep : Step s e s') : s'.Inv := by
  cases effect_of_step hstep with
  | scope ctx bound => exact ⟨h.fresh, h.fits, h.model⟩
  | create model tenant site => exact h.create model tenant site
  | add ho => exact h.add ho
  | flush defaultSiteId accepted => exact h.flush defaultSiteId accepted
  | commit => exact h.commit
  | rollback => exact h.rollback
  | edit ho hedit =>
    refine h.setObj (h.lt_next ho) ((h.fits _ _ ho).congr hedit.model hedit.state hedit.inserted ?_)
    intro r hr htracks
    rcases hedit.tenant with heq | ⟨tenant, -, heq⟩ | ⟨-, heq | ⟨r', hr', heq⟩⟩
    · exact heq ▸ htracks
    · exact heq ▸ htracks.set tenant
    · exact heq ▸ Attr.tracks_unset r.tenant
    · obtain rfl : r = r' := Option.some.inj (hr.symm.trans hr')
      exact heq ▸ htracks.load
  | @load id r ho hr =>
    have hid : id < s.next := by
      by_contra hid
      simp [(h.fresh id (not_lt.mp hid)).2.1] at hr
    refine h.setObj hid ⟨fun r' hr' => ?_, fun hs => by simp at hs, fun hi => by simp at hi,
      fun _ r' hr' => ?_⟩
    · rcases hr' with hr' | hr'
      · exact congrArg (·.model) (Option.some.inj (hr'.symm.trans hr))
      · exact h.model id r r' hr hr'
    · obtain rfl : r = r' := Option.some.inj (hr.symm.trans hr')
      exact Attr.tracks_loaded r.tenant

end Session

end Nodeglow.Tenancy
