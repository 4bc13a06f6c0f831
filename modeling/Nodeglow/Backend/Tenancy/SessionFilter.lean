import Mathlib.Data.List.Sort
import Nodeglow.Foundation.Attribute
import Nodeglow.Foundation.Run

/-!
# The session filter

Every row of a tenant-owned table belongs to one tenant, or to none where its model says so. Code
acts in a context: for one tenant, or for the system. Without one, a session may be bound to a
tenant. The filter listens to the sessions of the mapper. It stamps an object with the tenant of the
context when the object becomes pending (`onPending`), and before each flush it looks at every new,
changed or deleted object and raises unless all of them belong to the tenant (`beforeFlush`).

A session is modelled as its documentation has it. An object is transient, pending, persistent or
deleted; what a flush writes is decided by the states of the objects and the histories of their
attributes; a rollback expires the objects and undoes the states that the transaction gave them. The
number of an object is also that of its row. Rows have their model, tenant and site; an assignment
to any other column only counts as one (`Obj.others`).

Source: `backend/services/tenancy.py`, lines 70–85, 534–541, 567–592 and 731–823;
`backend/models/tenant.py`, lines 55–84.
-/

namespace Nodeglow.Tenancy

/-- What the filter reads of a mapped class. -/
structure Model where
  name : String
  tablename : String
  /-- The class has the mixin `TenantScoped`. -/
  tenantScoped : Bool
  /-- `__tenant_nullable__`. -/
  tenantNullable : Bool
  /-- The table has a column `site_id`. -/
  hasSite : Bool
  deriving DecidableEq, Repr

/-- The model of audit entries. -/
def auditLog : Model where
  name := "AuditLog"
  tablename := "audit_logs"
  tenantScoped := true
  tenantNullable := true
  hasSite := false

/-- Who the current code acts for. -/
inductive TenantContext
  | tenant (id : ℕ)
  /-- A system scope; `scope` tells two entries of scopes apart. -/
  | system (scope : ℕ) (reason : String) (audit : Bool)
  deriving DecidableEq, Repr

/-- The columns of a row. -/
structure Columns where
  model : Model
  tenant : Option ℕ
  site : Option ℕ
  deriving DecidableEq, Repr

/-- The constraint of the column `tenant_id`. -/
def Columns.NotNull (c : Columns) : Prop :=
  c.model.tenantScoped → c.tenant = none → c.model.tenantNullable

instance (c : Columns) : Decidable c.NotNull :=
  inferInstanceAs (Decidable (c.model.tenantScoped → c.tenant = none → c.model.tenantNullable))

/-- A row of the database. -/
structure Row extends Columns where
  notNull : toColumns.NotNull
  deriving DecidableEq

/-- The database takes columns that meet the constraint. -/
def Columns.toRow? (c : Columns) : Option Row :=
  if h : c.NotNull then some ⟨c, h⟩ else none

/-! ### Objects -/

inductive ObjState
  /-- Not in the session. -/
  | transient
  /-- To be inserted. -/
  | pending
  | persistent
  /-- The transaction has deleted the row. -/
  | deleted
  deriving DecidableEq, Repr

structure Obj where
  model : Model
  state : ObjState
  tenant : Attr (Option ℕ)
  site : Attr (Option ℕ)
  /-- Once another attribute has been assigned: whether one of them has changed. -/
  others : Option Bool
  /-- The next flush deletes the row. -/
  marked : Bool
  /-- The transaction has inserted the row. -/
  inserted : Bool
  deriving DecidableEq, Repr

namespace Obj

/-- The object that a constructor makes of the attributes given to it. -/
def make (model : Model) (tenant site : Option (Option ℕ)) : Obj :=
  ⟨model, .transient, ⟨tenant, none⟩, ⟨site, none⟩, none, false, false⟩

variable (o : Obj)

/-- The object is in `session.new`. -/
def isNew : Bool := o.state = .pending

/-- The object is in `session.deleted`. -/
def isDeleted : Bool := o.state = .persistent && o.marked

/-- The object is in `session.dirty`: an attribute has been assigned. -/
def isDirty : Bool :=
  (o.state = .persistent && !o.marked) &&
    (o.tenant.committed.isSome || o.site.committed.isSome || o.others.isSome)

/-- `session.is_modified(obj, include_collections=False)`. -/
def isModified : Bool := o.tenant.hasChanges || o.site.hasChanges || o.others.getD false

/-- `obj.tenant_id`, where it need not be loaded. -/
def tenantId : Option ℕ := o.tenant.get none

/-- The columns that the object is inserted with. -/
def columns : Columns := ⟨o.model, o.tenantId, o.site.get none⟩

/-- The columns of its row after an update. -/
def updated (r : Row) : Columns := ⟨r.model, o.tenant.stored r.tenant, o.site.stored r.site⟩

/-- Assign the tenant. -/
def setTenant (tid : Option ℕ) : Obj := { o with tenant := o.tenant.set tid }

/-- The attributes are forgotten, with what was assigned to them. -/
def expired : Obj := { o with tenant := .unset, site := .unset, others := none, marked := false }

/-- The object after a flush that has written it. -/
def flushed : Obj :=
  match o.state with
  | .pending =>
      { o with
        state := .persistent
        tenant := .loaded o.tenantId
        site := .loaded (o.site.get none)
        others := none
        inserted := true }
  | .persistent =>
      if o.marked then { o with state := .deleted, marked := false }
      else { o with tenant := o.tenant.commit, site := o.site.commit, others := none }
  | _ => o

/-- The object after a rollback. -/
def rolledBack : Obj :=
  match o.state with
  | .transient => o
  | .pending => { o with state := .transient }
  | .persistent | .deleted =>
      if o.inserted then { o with state := .transient, marked := false, inserted := false }
      else { o.expired with state := .persistent }

/-- The object after a commit; a deleted one is gone. -/
def committed : Option Obj :=
  if o.state = .deleted then none else some { o with inserted := false }

end Obj

/-! ### The filter -/

/-- `_on_pending`. -/
def onPending (ctx : Option TenantContext) (o : Obj) : Obj :=
  if !o.model.tenantScoped || o.tenantId.isSome then o
  else
    match ctx with
    | some (.tenant t) => o.setTenant (some t)
    | _ => o

/-- A new object of a table with sites gets the default site of its tenant. -/
def withDefaultSite (defaultSiteId : ℕ → Option ℕ) (tid : ℕ) (o : Obj) : Obj :=
  if o.model.hasSite && (o.site.get none).isNone then
    { o with site := o.site.set (defaultSiteId tid) }
  else o

/-- `_before_flush`, the loop over `session.new`: the object afterwards, and the error. -/
def checkNew (ctx : Option TenantContext) (defaultSiteId : ℕ → Option ℕ) (o : Obj) :
    Obj × Option String :=
  if !o.model.tenantScoped then (o, none)
  else
    match ctx, o.tenantId with
    | none, _ => (o, some s!"new {o.model.name} without tenant context")
    | some (.system _ reason _), none =>
        if o.model.tenantNullable then (o, none)
        else
          (o, some (s!"new {o.model.name} in system scope ({reason}) " ++
            "needs an explicit tenant_id"))
    | some (.system _ _ _), some tid => (withDefaultSite defaultSiteId tid o, none)
    | some (.tenant t), none => (withDefaultSite defaultSiteId t (o.setTenant (some t)), none)
    | some (.tenant t), some tid =>
        if tid ≠ t then
          (o, some s!"new {o.model.name} carries tenant {tid}, context is tenant {t}")
        else (withDefaultSite defaultSiteId tid o, none)

/-- `_before_flush`, the loop over `session.dirty` and `session.deleted`. The tenant is loaded if it
has expired. -/
def checkOld (ctx : Option TenantContext) (row : Option Row) (o : Obj) : Obj × Option String :=
  if !o.model.tenantScoped then (o, none)
  else if o.state = .persistent && o.tenant.hasChanges then
    (o, some s!"{o.model.name} cannot move between tenants outside system scope")
  else if o.isDirty && !o.isModified then (o, none)
  else
    match ctx, row with
    | some (.tenant t), some r =>
        let o := { o with tenant := o.tenant.load r.tenant }
        match o.tenantId with
        | none => (o, none)
        | some tid =>
            if tid ≠ t then
              (o, some (s!"{o.model.name} of tenant {tid} changed in the context of " ++
                s!"tenant {t}"))
            else (o, none)
    | some (.tenant _), none => (o, some s!"the row of {o.model.name} is gone")
    | _, _ => (o, some s!"changing a {o.model.name} without tenant context")

/-! ### Sessions -/

structure Session where
  /-- The number of objects and rows so far. -/
  next : ℕ
  obj : ℕ → Option Obj
  /-- The rows as the transaction sees them. -/
  row : ℕ → Option Row
  /-- The rows of the last commit. -/
  saved : ℕ → Option Row
  /-- The context of the running code. -/
  current : Option TenantContext
  /-- The tenant that the session is bound to. -/
  bound : Option ℕ
  /-- The system scopes and tenants with an audit entry. -/
  audited : List (ℕ × String × Option ℕ)

/-- A row before and after a statement. -/
structure Write where
  id : ℕ
  old : Option Columns
  new : Option Columns
  deriving DecidableEq, Repr

/-- What a flush does. -/
structure Flush where
  session : Session
  /-- The error of the filter. -/
  refused : Option String
  /-- The rows that the flush writes to. -/
  writes : List Write

namespace Session

/-- A session on a database. -/
def init (rows : List Row) : Session where
  next := rows.length
  obj _ := none
  row id := rows[id]?
  saved id := rows[id]?
  current := none
  bound := none
  audited := []

variable (s : Session)

/-- `_effective_context`: the ambient context, or the session's tenant. -/
def effectiveContext : Option TenantContext :=
  match s.current with
  | some ctx => some ctx
  | none => s.bound.map .tenant

/-- The effective context is a system scope. -/
def InSystemScope : Prop :=
  ∃ scope reason audit, s.effectiveContext = some (.system scope reason audit)

def setObj (id : ℕ) (o : Obj) : Session := { s with obj := Function.update s.obj id (some o) }

/-- The objects with a property, in the order of their making. -/
def objects (p : Obj → Bool) : List ℕ := (List.range s.next).filter fun id => (s.obj id).any p

/-- Make a transient object. -/
def create (model : Model) (tenant site : Option (Option ℕ)) : Session :=
  { s with
    next := s.next + 1
    obj := Function.update s.obj s.next (some (.make model tenant site)) }

/-- `session.add`: a transient object becomes pending. -/
def add (id : ℕ) (o : Obj) : Session :=
  match o.state with
  | .transient => s.setObj id { onPending s.effectiveContext o with state := .pending }
  | _ => s.setObj id { o with marked := false }

/-- Make an object and add it. -/
def addNew (model : Model) (tenant site : Option (Option ℕ)) : Session :=
  (s.create model tenant site).add s.next (.make model tenant site)

/-- One object after another; the first error ends the loop. -/
def forObjects (check : ℕ → Obj → Obj × Option String) :
    List ℕ → Session → Session × Option String
  | [], s => (s, none)
  | id :: rest, s =>
      match s.obj id with
      | none => forObjects check rest s
      | some o =>
          match check id o with
          | (o, some error) => (s.setObj id o, some error)
          | (o, none) => forObjects check rest (s.setObj id o)

/-- `_system_writes`: the tenants that a flush in system scope writes to. -/
def systemWrites : List (Option ℕ) :=
  (s.objects fun o =>
    (o.model.tenantScoped && o.model ≠ auditLog) &&
      (o.isNew || o.isDeleted || (o.isDirty && o.isModified))).filterMap fun id =>
    (s.obj id).map fun o => o.tenant.get ((s.row id).bind fun r => r.tenant)

/-- `_audit_system_write`: one entry for each tenant, once in a system scope. -/
def auditSystemWrite (scope : ℕ) (reason : String) : List (Option ℕ) → Session → Session
  | [], s => s
  | tid :: rest, s =>
      if (scope, reason, tid) ∈ s.audited then auditSystemWrite scope reason rest s
      else
        let s := { s with audited := (scope, reason, tid) :: s.audited }
        auditSystemWrite scope reason rest (s.addNew auditLog (some tid) none)

/-- Tenants by their number, the missing one last. -/
def sortTenants (l : List (Option ℕ)) : List (Option ℕ) :=
  l.dedup.insertionSort fun a b => b.isNone ∨ (a.isSome ∧ a.getD 0 ≤ b.getD 0)

/-- The audit entries of a flush in system scope. -/
def audit : Session :=
  match s.effectiveContext with
  | some (.system scope reason true) =>
      s.auditSystemWrite scope reason (sortTenants s.systemWrites)
  | _ => s

/-- `_before_flush`, the loop over `session.new`. -/
def checkAllNew (ctx : Option TenantContext) (defaultSiteId : ℕ → Option ℕ) :
    Session × Option String :=
  s.forObjects (fun _ => checkNew ctx defaultSiteId) (s.objects Obj.isNew)

/-- `_before_flush`, the loop over `session.dirty` and `session.deleted`. -/
def checkAllOld (ctx : Option TenantContext) : Session × Option String :=
  s.forObjects (fun id => checkOld ctx (s.row id))
    (s.objects Obj.isDirty ++ s.objects Obj.isDeleted)

/-- `_before_flush`. -/
def beforeFlush (defaultSiteId : ℕ → Option ℕ) : Session × Option String :=
  let r := s.audit.checkAllNew s.effectiveContext defaultSiteId
  match r.2, s.effectiveContext with
  | some error, _ => (r.1, some error)
  | none, some (.system _ _ _) => (r.1, none)
  | none, ctx => r.1.checkAllOld ctx

/-- The statement of a flush for an object. -/
def write? (id : ℕ) : Option Write :=
  match s.obj id with
  | none => none
  | some o =>
      if o.isNew then some ⟨id, none, some o.columns⟩
      else
        match s.row id with
        | none => none
        | some r =>
            if o.isDeleted then some ⟨id, some r.toColumns, none⟩
            else if o.isDirty && o.isModified then
              some ⟨id, some r.toColumns, some (o.updated r)⟩
            else none

def writes : List Write := (List.range s.next).filterMap s.write?

/-- The database has taken all statements of a flush. -/
def flushed : Session :=
  { s with
    obj id := (s.obj id).map Obj.flushed
    row id :=
      match s.write? id with
      | none => s.row id
      | some w => w.new.bind Columns.toRow? }

def rollback : Session :=
  { s with
    obj id := (s.obj id).map Obj.rolledBack
    row := s.saved }

/-- `session.commit`, after its flush. -/
def commit : Session :=
  { s with
    obj id := (s.obj id).bind Obj.committed
    saved := s.row }

/-- `session.flush`. The statements are undone if the database refuses one of them: for the
constraint of `tenant_id`, or for any other reason. -/
def flush (defaultSiteId : ℕ → Option ℕ) (accepted : Bool) : Flush :=
  match s.beforeFlush defaultSiteId with
  | (s, some error) => ⟨s, some error, []⟩
  | (s, none) =>
      let ok := accepted && s.writes.all fun w => w.new.all fun c => c.toRow?.isSome
      ⟨if ok then s.flushed else s.rollback, none, s.writes⟩

end Session

/-- What the code around a session can do. -/
inductive Event
  /-- A scope is entered or left. -/
  | setContext (ctx : Option TenantContext)
  | bindSession (tenant : ℕ)
  /-- Make an object, with the attributes given to its constructor. -/
  | create (model : Model) (tenant site : Option (Option ℕ))
  | add (id : ℕ)
  | setTenant (id : ℕ) (tenant : Option ℕ)
  | setSite (id : ℕ) (site : Option ℕ)
  /-- Assign another attribute. -/
  | setOther (id : ℕ) (changed : Bool)
  | delete (id : ℕ)
  /-- A query returns the row. -/
  | load (id : ℕ)
  /-- An expired attribute is read. -/
  | refresh (id : ℕ)
  | expire (id : ℕ)
  | flush (defaultSiteId : ℕ → Option ℕ) (accepted : Bool)
  | commit
  | rollback

namespace Session

variable (s : Session)

/-- One event; it has no value where the event cannot happen. -/
def step : Event → Option Session
  | .setContext ctx => some { s with current := ctx }
  | .bindSession tenant => some { s with bound := some tenant }
  | .create model tenant site => some (s.create model tenant site)
  | .add id => (s.obj id).map (s.add id)
  | .setTenant id tenant => (s.obj id).map fun o => s.setObj id (o.setTenant tenant)
  | .setSite id site => (s.obj id).map fun o => s.setObj id { o with site := o.site.set site }
  | .setOther id changed => (s.obj id).map fun o => s.setObj id { o with others := some changed }
  | .delete id =>
      match s.obj id with
      | some o => if o.state = .persistent then some (s.setObj id { o with marked := true }) else none
      | none => none
  | .load id =>
      match s.obj id, s.row id with
      | none, some r =>
          some (s.setObj id
            ⟨r.model, .persistent, .loaded r.tenant, .loaded r.site, none, false, false⟩)
      | _, _ => none
  | .refresh id =>
      match s.obj id, s.row id with
      | some o, some r =>
          if o.state = .persistent then
            some (s.setObj id
              { o with tenant := o.tenant.load r.tenant, site := o.site.load r.site })
          else none
      | _, _ => none
  | .expire id =>
      match s.obj id with
      | some o =>
          if o.state = .persistent then some (s.setObj id { o.expired with marked := o.marked })
          else none
      | none => none
  | .flush defaultSiteId accepted => some (s.flush defaultSiteId accepted).session
  | .commit => some s.commit
  | .rollback => some s.rollback

/-- The transition relation of `Session.step`. -/
def Step (s : Session) (e : Event) (s' : Session) : Prop := s.step e = some s'

end Session

end Nodeglow.Tenancy
