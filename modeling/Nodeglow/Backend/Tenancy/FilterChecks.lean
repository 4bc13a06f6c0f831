import Nodeglow.Backend.Tenancy.SessionFilter

/-!
# The checks of the session filter

Each check of the filter is described once: what it can change of an object (`checkNew_frame`,
`checkOld_frame`), and what it says about an object that passes (`checkNew_ok`, `checkOld_ok`). The
filter runs them in loops that end at the first error. A loop without an error has checked all of
its objects (`Session.forObjects_ok`); after any loop every object is as before, or as its check
leaves it (`Session.forObjects_cases`).

Source: `backend/services/tenancy.py`, lines 752–804.
-/

namespace Nodeglow.Tenancy

/-! ### The checks -/

section Checks

variable {ctx : Option TenantContext} {defaultSiteId : ℕ → Option ℕ} {o : Obj} {t : ℕ}

theorem onPending_frame (ctx : Option TenantContext) (o : Obj) :
    ∃ a, onPending ctx o = { o with tenant := a } := by
  unfold onPending
  split_ifs
  · exact ⟨o.tenant, rfl⟩
  · split
    · exact ⟨_, rfl⟩
    · exact ⟨o.tenant, rfl⟩

theorem withDefaultSite_frame (defaultSiteId : ℕ → Option ℕ) (tid : ℕ) (o : Obj) :
    ∃ b, withDefaultSite defaultSiteId tid o = { o with site := b } := by
  unfold withDefaultSite
  split_ifs
  · exact ⟨_, rfl⟩
  · exact ⟨o.site, rfl⟩

/-- What the check of a new object does to it: only an object without a tenant is stamped. -/
theorem checkNew_frame (ctx : Option TenantContext) (defaultSiteId : ℕ → Option ℕ) (o : Obj) :
    ∃ a b, (checkNew ctx defaultSiteId o).1 = { o with tenant := a, site := b } ∧
      (a = o.tenant ∨ (o.tenantId = none ∧ ∃ t, a = o.tenant.set (some t))) := by
  have hsite (tid : ℕ) (o : Obj) : ∃ b, withDefaultSite defaultSiteId tid o = { o with site := b } :=
    withDefaultSite_frame defaultSiteId tid o
  unfold checkNew
  split
  · exact ⟨o.tenant, o.site, rfl, Or.inl rfl⟩
  · split
    · exact ⟨o.tenant, o.site, rfl, Or.inl rfl⟩
    · split <;> exact ⟨o.tenant, o.site, rfl, Or.inl rfl⟩
    · next tid _ =>
      obtain ⟨b, hb⟩ := hsite tid o
      exact ⟨o.tenant, b, hb, Or.inl rfl⟩
    · next t hnone =>
      obtain ⟨b, hb⟩ := hsite t (o.setTenant (some t))
      exact ⟨o.tenant.set (some t), b, hb, Or.inr ⟨hnone, t, rfl⟩⟩
    · next tid _ =>
      obtain ⟨b, hb⟩ := hsite tid o
      split
      · exact ⟨o.tenant, o.site, rfl, Or.inl rfl⟩
      · exact ⟨o.tenant, b, hb, Or.inl rfl⟩

/-- **New objects.** Outside system scope an object that passes has the tenant of the context. -/
theorem checkNew_ok (hscoped : o.model.tenantScoped = true)
    (hsystem : ∀ scope reason audit, ctx ≠ some (.system scope reason audit))
    (hok : (checkNew ctx defaultSiteId o).2 = none) :
    ∃ t, ctx = some (.tenant t) ∧ (checkNew ctx defaultSiteId o).1.tenantId = some t := by
  have hsite (tid : ℕ) (o : Obj) : (withDefaultSite defaultSiteId tid o).tenantId = o.tenantId := by
    obtain ⟨b, hb⟩ := withDefaultSite_frame defaultSiteId tid o
    rw [hb]
    rfl
  rcases ctx with _ | t | ⟨scope, reason, audit⟩
  · simp [checkNew, hscoped] at hok
  · refine ⟨t, rfl, ?_⟩
    cases htid : o.tenantId with
    | none =>
      simp only [checkNew, hscoped, htid, Bool.not_true, Bool.false_eq_true, if_false, hsite]
      rfl
    | some tid =>
      simp only [checkNew, hscoped, htid, Bool.not_true, Bool.false_eq_true, if_false] at hok ⊢
      split_ifs at hok ⊢ with heq
      rw [hsite, htid, not_not.mp heq]
  · exact absurd rfl (hsystem scope reason audit)

/-- What the check of an object in the database does to it. -/
theorem checkOld_frame (ctx : Option TenantContext) (row : Option Row) (o : Obj) :
    ∃ a, (checkOld ctx row o).1 = { o with tenant := a } ∧
      (a = o.tenant ∨ ∃ r, row = some r ∧ a = o.tenant.load r.tenant) := by
  unfold checkOld
  split
  · exact ⟨o.tenant, rfl, Or.inl rfl⟩
  · split
    · exact ⟨o.tenant, rfl, Or.inl rfl⟩
    · split
      · exact ⟨o.tenant, rfl, Or.inl rfl⟩
      · split
        · next t r =>
          refine ⟨o.tenant.load r.tenant, ?_, Or.inr ⟨r, rfl, rfl⟩⟩
          dsimp only
          split
          · rfl
          · split <;> rfl
        · exact ⟨o.tenant, rfl, Or.inl rfl⟩
        · exact ⟨o.tenant, rfl, Or.inl rfl⟩

/-- **Changed and deleted objects.** An object that passes shows no change of its tenant; its row
is of the tenant of the context, or of none. -/
theorem checkOld_ok {r : Row} (hscoped : o.model.tenantScoped = true)
    (hstate : o.state = .persistent) (htracks : o.tenant.Tracks r.tenant)
    (hchanged : o.isDirty = true → o.isModified = true)
    (hok : (checkOld ctx (some r) o).2 = none) :
    o.tenant.hasChanges = false ∧
      ∃ t, ctx = some (.tenant t) ∧ (r.tenant = none ∨ r.tenant = some t) := by
  have hno : o.tenant.hasChanges = false := by
    by_contra hchange
    rw [Bool.not_eq_false] at hchange
    simp [checkOld, hscoped, hstate, hchange] at hok
  have hskip : (o.isDirty && !o.isModified) = false := by
    cases hdirty : o.isDirty with
    | false => rfl
    | true => simp [hchanged hdirty]
  refine ⟨hno, ?_⟩
  rcases ctx with _ | t | ⟨scope, reason, audit⟩
  · simp [checkOld, hscoped, hno, hskip] at hok
  · refine ⟨t, rfl, ?_⟩
    -- the value in memory, once loaded, is that of the row
    have hload : (o.tenant.load r.tenant).get none = r.tenant :=
      (Attr.get_load ..).trans (htracks.get_eq hno)
    cases hr : r.tenant with
    | none => exact Or.inl rfl
    | some tid =>
      refine Or.inr (congrArg some ?_)
      by_contra hne
      rw [hr] at hload
      simp [checkOld, hscoped, hno, hskip, Obj.tenantId, hr, hload, hne] at hok
  · simp [checkOld, hscoped, hno, hskip] at hok

end Checks

namespace Session

variable {s : Session} {id : ℕ} {o : Obj}

/-! ### The loops of the filter -/

variable {check : ℕ → Obj → Obj × Option String} {ids : List ℕ}

@[simp] theorem setObj_obj_self (s : Session) (id : ℕ) (o : Obj) :
    (s.setObj id o).obj id = some o := by simp [Session.setObj]

theorem setObj_obj_of_ne {id' : ℕ} (hne : id' ≠ id) (s : Session) (o : Obj) :
    (s.setObj id o).obj id' = s.obj id' := by simp [Session.setObj, hne]

theorem forObjects_cons_of_none (ho : s.obj id = none) :
    forObjects check (id :: ids) s = forObjects check ids s := by simp [forObjects, ho]

theorem forObjects_cons_of_error {error : String} (ho : s.obj id = some o)
    (hcheck : (check id o).2 = some error) :
    forObjects check (id :: ids) s = (s.setObj id (check id o).1, some error) := by
  have hpair : check id o = ((check id o).1, some error) := Prod.ext rfl hcheck
  simp only [forObjects, ho]
  rw [hpair]

theorem forObjects_cons_of_ok (ho : s.obj id = some o) (hcheck : (check id o).2 = none) :
    forObjects check (id :: ids) s = forObjects check ids (s.setObj id (check id o).1) := by
  have hpair : check id o = ((check id o).1, none) := Prod.ext rfl hcheck
  simp only [forObjects, ho]
  rw [hpair]

/-- A loop of the filter changes objects only. -/
theorem forObjects_frame (check : ℕ → Obj → Obj × Option String) (ids : List ℕ) (s : Session) :
    ∃ f, (forObjects check ids s).1 = { s with obj := f } := by
  induction ids generalizing s with
  | nil => exact ⟨s.obj, rfl⟩
  | cons id rest ih =>
    cases ho : s.obj id with
    | none =>
      rw [forObjects_cons_of_none ho]
      exact ih s
    | some o =>
      cases hcheck : (check id o).2 with
      | some error => exact ⟨_, by rw [forObjects_cons_of_error ho hcheck]; rfl⟩
      | none =>
        obtain ⟨f, hf⟩ := ih (s.setObj id (check id o).1)
        exact ⟨f, by rw [forObjects_cons_of_ok ho hcheck, hf]; rfl⟩

/-- An object that the loop does not come to stays as it is. -/
theorem forObjects_obj_of_notMem (hid : id ∉ ids) :
    (forObjects check ids s).1.obj id = s.obj id := by
  induction ids generalizing s with
  | nil => rfl
  | cons i rest ih =>
    obtain ⟨hne, hrest⟩ : id ≠ i ∧ id ∉ rest := by simpa using hid
    cases ho : s.obj i with
    | none => rw [forObjects_cons_of_none ho, ih hrest]
    | some o =>
      cases hcheck : (check i o).2 with
      | some error => rw [forObjects_cons_of_error ho hcheck, setObj_obj_of_ne hne]
      | none => rw [forObjects_cons_of_ok ho hcheck, ih hrest, setObj_obj_of_ne hne]

theorem isSome_forObjects (h : (s.obj id).isSome = true) :
    ((forObjects check ids s).1.obj id).isSome = true := by
  induction ids generalizing s with
  | nil => exact h
  | cons i rest ih =>
    have hset (o : Obj) : ((s.setObj i o).obj id).isSome = true := by
      by_cases heq : id = i
      · simp [heq]
      · rwa [setObj_obj_of_ne heq]
    cases ho : s.obj i with
    | none =>
      rw [forObjects_cons_of_none ho]
      exact ih h
    | some o =>
      cases hcheck : (check i o).2 with
      | some error =>
        rw [forObjects_cons_of_error ho hcheck]
        exact hset _
      | none =>
        rw [forObjects_cons_of_ok ho hcheck]
        exact ih (hset _)

/-- A loop without an error has checked all its objects. -/
theorem forObjects_ok (hnodup : ids.Nodup) (hok : (forObjects check ids s).2 = none)
    (hid : id ∈ ids) (ho : s.obj id = some o) :
    (check id o).2 = none ∧ (forObjects check ids s).1.obj id = some (check id o).1 := by
  induction ids generalizing s with
  | nil => simp at hid
  | cons i rest ih =>
    obtain ⟨hi, hrest⟩ := List.nodup_cons.mp hnodup
    cases ho' : s.obj i with
    | none =>
      have hne : id ≠ i := fun heq => by simp [heq, ho'] at ho
      rw [forObjects_cons_of_none ho'] at hok ⊢
      exact ih hrest hok ((List.mem_cons.mp hid).resolve_left hne) ho
    | some o' =>
      cases hcheck : (check i o').2 with
      | some error => simp [forObjects_cons_of_error ho' hcheck] at hok
      | none =>
        rw [forObjects_cons_of_ok ho' hcheck] at hok ⊢
        by_cases heq : id = i
        · subst heq
          obtain rfl : o' = o := Option.some.inj (ho'.symm.trans ho)
          exact ⟨hcheck, (forObjects_obj_of_notMem hi).trans (setObj_obj_self ..)⟩
        · exact ih hrest hok ((List.mem_cons.mp hid).resolve_left heq)
            ((setObj_obj_of_ne heq ..).trans ho)

/-- Every object after a loop is as before, or as its check leaves it. -/
theorem forObjects_cases (hnodup : ids.Nodup)
    (ho : (forObjects check ids s).1.obj id = some o) :
    ∃ o', s.obj id = some o' ∧ (o = o' ∨ (id ∈ ids ∧ o = (check id o').1)) := by
  induction ids generalizing s with
  | nil => exact ⟨o, ho, Or.inl rfl⟩
  | cons i rest ih =>
    obtain ⟨hi, hrest⟩ := List.nodup_cons.mp hnodup
    cases ho' : s.obj i with
    | none =>
      rw [forObjects_cons_of_none ho'] at ho
      obtain ⟨o', hs, hcases⟩ := ih hrest ho
      exact ⟨o', hs, hcases.imp_right fun h => ⟨List.mem_cons_of_mem i h.1, h.2⟩⟩
    | some oi =>
      have hself (hset : (s.setObj i (check i oi).1).obj i = some o) :
          ∃ o', s.obj i = some o' ∧ (o = o' ∨ (i ∈ i :: rest ∧ o = (check i o').1)) :=
        ⟨oi, ho', Or.inr ⟨List.mem_cons_self, Option.some.inj (hset.symm.trans (setObj_obj_self ..))⟩⟩
      cases hcheck : (check i oi).2 with
      | some error =>
        rw [forObjects_cons_of_error ho' hcheck] at ho
        by_cases heq : id = i
        · subst heq
          exact hself ho
        · exact ⟨o, (setObj_obj_of_ne heq ..).symm.trans ho, Or.inl rfl⟩
      | none =>
        rw [forObjects_cons_of_ok ho' hcheck] at ho
        by_cases heq : id = i
        · subst heq
          exact hself ((forObjects_obj_of_notMem hi).symm.trans ho)
        · obtain ⟨o', hs, hcases⟩ := ih hrest ho
          exact ⟨o', (setObj_obj_of_ne heq ..).symm.trans hs,
            hcases.imp_right fun h => ⟨List.mem_cons_of_mem i h.1, h.2⟩⟩

theorem nodup_objects (s : Session) (p : Obj → Bool) : (s.objects p).Nodup :=
  List.nodup_range.filter _

/-- An object is dirty or deleted, not both. -/
theorem nodup_dirty_append_deleted (s : Session) :
    (s.objects Obj.isDirty ++ s.objects Obj.isDeleted).Nodup := by
  refine List.nodup_append.mpr ⟨s.nodup_objects _, s.nodup_objects _, fun i hi j hj hij => ?_⟩
  subst hij
  have hdirty := (List.mem_filter.mp hi).2
  have hdeleted := (List.mem_filter.mp hj).2
  cases ho : s.obj i with
  | none => simp [ho] at hdirty
  | some o =>
    have hdirty : o.isDirty = true := by simpa [ho] using hdirty
    have hdeleted : o.isDeleted = true := by simpa [ho] using hdeleted
    simp only [Obj.isDeleted, Bool.and_eq_true] at hdeleted
    simp [Obj.isDirty, hdeleted.2] at hdirty

theorem checkAllNew_rows (s : Session) (ctx : Option TenantContext)
    (defaultSiteId : ℕ → Option ℕ) :
    (s.checkAllNew ctx defaultSiteId).1.row = s.row ∧
      (s.checkAllNew ctx defaultSiteId).1.saved = s.saved := by
  obtain ⟨f, hf⟩ := forObjects_frame (fun _ => checkNew ctx defaultSiteId) (s.objects Obj.isNew) s
  rw [checkAllNew, hf]
  exact ⟨rfl, rfl⟩

theorem checkAllOld_rows (s : Session) (ctx : Option TenantContext) :
    (s.checkAllOld ctx).1.row = s.row ∧ (s.checkAllOld ctx).1.saved = s.saved := by
  obtain ⟨f, hf⟩ := forObjects_frame (fun id => checkOld ctx (s.row id))
    (s.objects Obj.isDirty ++ s.objects Obj.isDeleted) s
  rw [checkAllOld, hf]
  exact ⟨rfl, rfl⟩

end Session

end Nodeglow.Tenancy
