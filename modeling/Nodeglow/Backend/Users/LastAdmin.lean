import Nodeglow.Backend.Users.Directory
import Nodeglow.Foundation.Table

/-!
# The last admin of a tenant

The routes of the user management refuse to remove or to demote the last admin of a tenant. Each
request reads the member's role, counts the admins if the member is one, and writes and commits the
membership in its own transaction; between the count and the commit others may commit. A directory
login sets the role in the default tenant that the directory's groups give, and counts nobody.

The directory decides: a login takes the role of the last admin too
(`Memberships.last_admin_after_login`). Otherwise a tenant with an admin keeps one, if no admin
loses the role by another commit while a request that removes or demotes a member is under way
(`Memberships.Orderly`, `Memberships.admin_remains`).

## Main results

* `Memberships.Inv.step`, `Memberships.admin_remains` — one event, and whole runs.

Source: `backend/routers/users.py`, lines 109–139, 185–240 and 323–387;
`backend/routers/auth.py`, lines 239–265 and 331; `backend/services/memberships.py`, lines 40–96.
-/

namespace Nodeglow.Users

open Tenancy.Access (validRoles normaliseRole)

/-! ### Transactions -/

inductive Change
  /-- `update_user_api` and `update_role`. -/
  | setRole (role : String)
  /-- `delete_user_api` and `delete_user`. -/
  | remove
  /-- `_try_ldap_login`, with the role that the directory gives. -/
  | directoryLogin (role : String)
  deriving DecidableEq, Repr

structure Transaction where
  userId : ℤ
  tenantId : ℤ
  change : Change
  deriving DecidableEq, Repr

namespace Transaction

variable (x : Transaction)

/-- The primary key of the membership. -/
def key : ℤ × ℤ := (x.userId, x.tenantId)

/-- The role that the membership is to have. -/
def target : Option String :=
  match x.change with
  | .setRole role | .directoryLogin role => some (normaliseRole role)
  | .remove => none

/-- A request that the check of the last admin is about. -/
def demotes : Bool :=
  match x.change with
  | .setRole role => role ≠ "admin"
  | .remove => true
  | .directoryLogin _ => false

def isLogin : Bool :=
  match x.change with
  | .directoryLogin _ => true
  | _ => false

end Transaction

/-- Where a transaction is, and what it has read. -/
inductive Stage
  | idle
  /-- `_member` has read the role; a login has read the membership. -/
  | read (x : Transaction) (role : Option String)
  | checked (x : Transaction) (role : Option String)
  /-- `grant` or `revoke` has loaded the row. -/
  | held (x : Transaction) (row : Option String)
  /-- `revoke` has deleted the membership. -/
  | revoked (x : Transaction)
  /-- The user has no membership left, and the account is deleted next. -/
  | orphaned (x : Transaction)
  | ready (x : Transaction)
  | ended
  deriving DecidableEq, Repr

/-- The transaction, as long as it is under way. -/
def Stage.transaction : Stage → Option Transaction
  | .read x _ | .checked x _ | .held x _ | .revoked x | .orphaned x | .ready x => some x
  | .idle | .ended => none

/-- The transaction, once it has flushed. -/
def Stage.flushed : Stage → Option Transaction
  | .revoked x | .orphaned x | .ready x => some x
  | _ => none

/-- The check of the last admin is passed, or does not concern the member. -/
def Stage.passed : Stage → Bool
  | .read _ role => role ≠ some "admin"
  | _ => true

structure Memberships where
  /-- The roles by user and tenant. -/
  table : Table ℕ (ℤ × ℤ) String
  stages : ℕ → Stage
  /-- The transactions that have begun. -/
  begun : List ℕ

inductive Event
  | read (k : ℕ) (x : Transaction)
  | check (k : ℕ)
  | load (k : ℕ)
  | flush (k : ℕ)
  /-- `_remove_from_tenant` looks for other memberships; `keep` is what it has found of the operator
  flag and of the provider's memberships. -/
  | remaining (k : ℕ) (keep : Bool)
  | deleteAccount (k : ℕ)
  | commit (k : ℕ)
  /-- A request is refused or fails. -/
  | abort (k : ℕ)
  deriving DecidableEq, Repr

namespace Memberships

variable (w : Memberships)

def init (members : List ((ℤ × ℤ) × String)) : Memberships where
  table := .ofList members
  stages _ := .idle
  begun := []

def setStage (k : ℕ) (stage : Stage) : Memberships :=
  { w with stages := Function.update w.stages k stage }

/-- `admin_count`, as transaction `k` sees it. -/
def adminCount (k : ℕ) (tenantId : ℤ) : ℕ :=
  w.table.count k fun p role => p.2 = tenantId && role = "admin"

/-- `_is_last_admin`, for a member with the given role. -/
def isLastAdmin (k : ℕ) (tenantId : ℤ) (role : Option String) : Bool :=
  role.map normaliseRole = some "admin" && w.adminCount k tenantId ≤ 1

/-- What a transaction starts from: a request from a member of its tenant and a valid role, a login
from the default tenant. -/
def admits (x : Transaction) (role : Option String) : Bool :=
  match x.change with
  | .setRole new => role.isSome && new ∈ validRoles
  | .remove => role.isSome
  | .directoryLogin _ => x.tenantId = defaultTenantId

/-- The `INSERT`, `UPDATE` or `DELETE` of a flush: none if the row is as it was loaded; an insert
fails where there is a row, and an update where there is none. -/
def flush (k : ℕ) (x : Transaction) (row : Option String) : Option (Table ℕ (ℤ × ℤ) String) :=
  if x.target = row then some w.table
  else if x.target = none ∨ row.isSome = (w.table.lookup k x.key).isSome then
    w.table.write k x.key fun _ => x.target
  else none

/-- One event; it has no value where the event cannot happen. -/
def step : Event → Option Memberships
  | .read k x =>
      if w.stages k = .idle ∧ admits x (w.table.lookup k x.key) then
        some { w.setStage k (.read x (w.table.lookup k x.key)) with begun := k :: w.begun }
      else none
  | .check k =>
      match w.stages k with
      | .read x role =>
          match x.change with
          | .directoryLogin new =>
              if role = some new then some (w.setStage k (.ready x))
              else some (w.setStage k (.checked x role))
          | _ =>
              if x.demotes ∧ w.isLastAdmin k x.tenantId role then none
              else some (w.setStage k (.checked x role))
      | _ => none
  | .load k =>
      match w.stages k with
      | .checked x role =>
          -- a login still holds the membership that it has read
          if x.isLogin ∧ role.isSome then some (w.setStage k (.held x role))
          else some (w.setStage k (.held x (w.table.lookup k x.key)))
      | _ => none
  | .flush k =>
      match w.stages k with
      | .held x row =>
          (w.flush k x row).map fun table =>
            { w with table := table }.setStage k
              (if x.change = Change.remove then .revoked x else .ready x)
      | _ => none
  | .remaining k keep =>
      match w.stages k with
      | .revoked x =>
          if w.table.count k (fun p _ => p.1 = x.userId) = 0 ∧ !keep then
            some (w.setStage k (.orphaned x))
          else some (w.setStage k (.ready x))
      | _ => none
  | .deleteAccount k =>
      match w.stages k with
      | .orphaned x =>
          (w.table.deleteWhere k fun p => p.1 = x.userId).map fun table =>
            { w with table := table }.setStage k (.ready x)
      | _ => none
  | .commit k =>
      match w.stages k with
      | .ready _ => some ({ w with table := w.table.commit k }.setStage k .ended)
      | _ => none
  | .abort k =>
      if w.stages k = .idle then none
      else some ({ w with table := w.table.rollback k }.setStage k .ended)

/-- The transition relation of `Memberships.step`. -/
def Step (w : Memberships) (e : Event) (w' : Memberships) : Prop := w.step e = some w'

/-- A user is an admin of the tenant. -/
def IsAdmin (userId tenantId : ℤ) : Prop := w.table.committed (userId, tenantId) = some "admin"

/-- The commit of transaction `k` takes an admin of the tenant his role. -/
def Takes (k : ℕ) (tenantId : ℤ) : Prop :=
  ∃ p ∈ w.table.keys, p.2 = tenantId ∧ w.table.writer p = some k ∧
    w.table.committed p = some "admin" ∧ w.table.lookup k p ≠ some "admin"

/-- A request for the tenant that removes or demotes a member is under way. -/
def UnderWay (k : ℕ) (tenantId : ℤ) : Prop :=
  ∃ x ∈ (w.stages k).transaction, x.demotes ∧ x.tenantId = tenantId

/-- **What the commits rely on.** No admin loses the role while another request that removes or
demotes a member of the tenant is under way; a login does not take the role of the last admin; and
an account is not deleted that has got a membership since. -/
def Orderly (tenantId : ℤ) (w : Memberships) : Event → Prop
  | .commit k =>
      w.Takes k tenantId →
        (∀ j ∈ w.begun, j ≠ k → ¬w.UnderWay j tenantId) ∧
          ∀ x ∈ (w.stages k).transaction, x.isLogin →
            ∃ p ∈ w.table.keys, p.2 = tenantId ∧ p ≠ x.key ∧ w.table.committed p = some "admin"
  | .deleteAccount k =>
      ∀ x ∈ (w.stages k).transaction, ∀ p ∈ w.table.keys, p.1 = x.userId →
        w.table.lookup k p = none
  | _ => True

/-! ### The invariant -/

variable {w w' : Memberships} {tenantId : ℤ}

/-- Another than the given user is an admin of the tenant. -/
def HasOther (w : Memberships) (userId tenantId : ℤ) : Prop :=
  ∃ u, u ≠ userId ∧ w.IsAdmin u tenantId

structure Inv (tenantId : ℤ) (w : Memberships) : Prop where
  admin : ∃ u, w.IsAdmin u tenantId
  /-- A row is locked by a transaction that has written it. -/
  locked : ∀ k p, w.table.writer p = some k →
    ∃ x, (w.stages k).flushed = some x ∧ p = x.key ∧ w.table.lookup k p = x.target
  /-- A request that removes or demotes a member knows of another admin. -/
  other : ∀ k x, (w.stages k).transaction = some x → x.tenantId = tenantId → x.demotes →
    (w.stages k).passed → w.HasOther x.userId tenantId
  begun : ∀ k, w.stages k ≠ .idle → k ∈ w.begun

theorem stages_setStage (w : Memberships) (k : ℕ) (stage : Stage) (j : ℕ) :
    (w.setStage k stage).stages j = if j = k then stage else w.stages j := by
  simp [setStage, Function.update_apply]

/-- Another admin stays as long as no admin loses the role. -/
theorem HasOther.mono {u : ℤ} (h : w.HasOther u tenantId)
    (hle : ∀ v, w.IsAdmin v tenantId → w'.IsAdmin v tenantId) : w'.HasOther u tenantId :=
  h.imp fun v hv => hv.imp_right (hle v)

theorem inv_init (members : List ((ℤ × ℤ) × String))
    (hadmin : ∃ u, (init members).IsAdmin u tenantId) : (init members).Inv tenantId := by
  refine ⟨hadmin, ?_, ?_, ?_⟩
  · intro k p hp
    cases hp
  · intro k x hx
    cases hx
  · intro k hk
    exact absurd rfl hk

/-- A transaction that has not flushed has locked nothing. -/
theorem Inv.writer_ne (h : w.Inv tenantId) {k : ℕ} (hk : (w.stages k).flushed = none)
    (p : ℤ × ℤ) : w.table.writer p ≠ some k := by
  intro hp
  obtain ⟨x, hx, -⟩ := h.locked k p hp
  rw [hk] at hx
  cases hx

/-- A transaction that has not flushed sees what is committed. -/
theorem Inv.lookup (h : w.Inv tenantId) {k : ℕ} (hk : (w.stages k).flushed = none)
    (p : ℤ × ℤ) : w.table.lookup k p = w.table.committed p :=
  Table.lookup_of_writer_ne (h.writer_ne hk p)

/-- A transaction gets on, and commits nothing. -/
theorem Inv.update (h : w.Inv tenantId) {k : ℕ} {stage : Stage} {table : Table ℕ (ℤ × ℤ) String}
    (hcommitted : ∀ p, table.committed p = w.table.committed p) (hbegun : w.stages k ≠ .idle)
    (hlocked : ∀ j p, table.writer p = some j →
      ∃ x, (if j = k then stage else w.stages j).flushed = some x ∧ p = x.key ∧
        table.lookup j p = x.target)
    (hother : ∀ x, stage.transaction = some x → x.tenantId = tenantId → x.demotes → stage.passed →
      w.HasOther x.userId tenantId) :
    ({ w with table := table }.setStage k stage).Inv tenantId := by
  have hadmin (u : ℤ) (hu : w.IsAdmin u tenantId) :
      ({ w with table := table }.setStage k stage).IsAdmin u tenantId :=
    (hcommitted (u, tenantId)).trans hu
  refine ⟨h.admin.imp hadmin, ?_, ?_, ?_⟩
  · intro j p hp
    rw [stages_setStage]
    exact hlocked j p hp
  · intro j x hx hten hd hpassed
    rw [stages_setStage] at hx hpassed
    split_ifs at hx hpassed with hjk
    · exact (hother x hx hten hd hpassed).mono hadmin
    · exact (h.other j x hx hten hd hpassed).mono hadmin
  · intro j hj
    rw [stages_setStage] at hj
    split_ifs at hj with hjk
    · exact hjk ▸ h.begun k hbegun
    · exact h.begun j hj

/-- A transaction gets on without touching the table. -/
theorem Inv.setStage (h : w.Inv tenantId) {k : ℕ} {stage : Stage} (hbegun : w.stages k ≠ .idle)
    (hflushed : ∀ x, (w.stages k).flushed = some x → stage.flushed = some x)
    (hother : ∀ x, stage.transaction = some x → x.tenantId = tenantId → x.demotes → stage.passed →
      w.HasOther x.userId tenantId) :
    (w.setStage k stage).Inv tenantId := by
  refine h.update (fun _ => rfl) hbegun (fun j p hp => ?_) hother
  obtain ⟨x, hx, hkey, hlookup⟩ := h.locked j p hp
  refine ⟨x, ?_, hkey, hlookup⟩
  split_ifs with hjk
  · exact hflushed x (hjk ▸ hx)
  · exact hx

/-- The first read of a transaction. -/
theorem Inv.read (h : w.Inv tenantId) {k : ℕ} {x : Transaction} (hidle : w.stages k = .idle) :
    Inv tenantId
      { w.setStage k (.read x (w.table.lookup k x.key)) with begun := k :: w.begun } := by
  have hlookup := h.lookup (k := k) (by simp [hidle, Stage.flushed]) x.key
  refine ⟨h.admin, ?_, ?_, ?_⟩
  · intro j p hp
    obtain ⟨y, hy, hkey⟩ := h.locked j p hp
    have hjk : j ≠ k := by
      rintro rfl
      rw [hidle] at hy
      cases hy
    exact ⟨y, by rw [stages_setStage, if_neg hjk, hy], hkey⟩
  · intro j y hy hten hd hpassed
    change ((w.setStage k _).stages j).transaction = some y at hy
    change ((w.setStage k _).stages j).passed = true at hpassed
    rw [stages_setStage] at hy hpassed
    split_ifs at hy hpassed
    · obtain rfl := Option.some.inj hy
      -- the admin that the tenant has is not the member
      obtain ⟨u, hu⟩ := h.admin
      refine ⟨u, ?_, hu⟩
      rintro rfl
      refine of_decide_eq_true hpassed (hlookup.trans ?_)
      rw [← hu, ← hten]
      rfl
    · exact h.other j y hy hten hd hpassed
  · intro j hj
    change (w.setStage k _).stages j ≠ .idle at hj
    rw [stages_setStage] at hj
    split_ifs at hj with hjk
    · exact hjk ▸ List.mem_cons_self
    · exact List.mem_cons_of_mem k (h.begun j hj)

/-- A request that has passed the check of the last admin has seen another. -/
theorem Inv.hasOther_of_check (h : w.Inv tenantId) {k : ℕ} {x : Transaction} {role : Option String}
    (hstage : w.stages k = .read x role) (hten : x.tenantId = tenantId) (hd : x.demotes)
    (hlast : ¬w.isLastAdmin k x.tenantId role) : w.HasOther x.userId tenantId := by
  by_cases hrole : role = some "admin"
  · have hcount : 1 < w.adminCount k tenantId := by
      simpa [isLastAdmin, hrole, normaliseRole, validRoles, hten] using hlast
    obtain ⟨p, hne, hp⟩ := Table.exists_ne_of_count hcount x.key
    obtain ⟨r, hr, hpten, rfl⟩ : ∃ r, w.table.lookup k p = some r ∧ p.2 = tenantId ∧
        r = "admin" := by
      simpa [Option.any_eq_true] using hp
    rw [h.lookup (by simp [hstage, Stage.flushed])] at hr
    refine ⟨p.1, fun heq => hne (Prod.ext heq (hpten.trans hten.symm)), ?_⟩
    rw [← hpten]
    exact hr
  · refine h.other k x (by simp [hstage, Stage.transaction]) hten hd ?_
    simpa [hstage, Stage.passed] using hrole

/-- The flush of a transaction. -/
theorem Inv.flush (h : w.Inv tenantId) {k : ℕ} {x : Transaction} {row : Option String}
    {table : Table ℕ (ℤ × ℤ) String} {stage : Stage} (hstage : w.stages k = .held x row)
    (hflush : w.flush k x row = some table) (hflushed : stage.flushed = some x)
    (hx : stage.transaction = some x) :
    ({ w with table := table }.setStage k stage).Inv tenantId := by
  have hbegun : w.stages k ≠ .idle := by simp [hstage]
  have hfree := h.writer_ne (k := k) (by simp [hstage, Stage.flushed])
  have hother (y : Transaction) (hy : stage.transaction = some y) (hten : y.tenantId = tenantId)
      (hd : y.demotes) (_ : stage.passed) : w.HasOther y.userId tenantId := by
    refine h.other k y ?_ hten hd (by rw [hstage]; rfl)
    rw [hstage, ← hy, hx]
    rfl
  unfold Memberships.flush at hflush
  split_ifs at hflush
  · obtain rfl := Option.some.inj hflush
    refine h.update (fun _ => rfl) hbegun (fun j p hp => ?_) hother
    have hjk : j ≠ k := fun heq => hfree p (heq ▸ hp)
    rw [if_neg hjk]
    exact h.locked j p hp
  · refine h.update (Table.committed_of_write hflush) hbegun (fun j p hp => ?_) hother
    rw [Table.writer_of_write hflush] at hp
    split_ifs at hp with hpx
    · obtain rfl := Option.some.inj hp
      refine ⟨x, by rw [if_pos rfl, hflushed], hpx, ?_⟩
      rw [hpx, Table.lookup_of_write hflush]
    · have hjk : j ≠ k := fun heq => hfree p (heq ▸ hp)
      rw [if_neg hjk, Table.lookup_of_write_of_ne hflush hpx]
      exact h.locked j p hp

/-- The end of a transaction without a commit. -/
theorem Inv.abort (h : w.Inv tenantId) {k : ℕ} (hbegun : w.stages k ≠ .idle) :
    ({ w with table := w.table.rollback k }.setStage k .ended).Inv tenantId := by
  refine h.update (Table.committed_rollback w.table k) hbegun (fun j p hp => ?_)
    (by simp [Stage.transaction])
  rw [Table.writer_rollback] at hp
  split_ifs at hp with hpk
  have hjk : j ≠ k := by
    rintro rfl
    exact hpk hp
  obtain ⟨x, hx, hkey, hlookup⟩ := h.locked j p hp
  refine ⟨x, by rw [if_neg hjk, hx], hkey, ?_⟩
  rw [← hlookup]
  change ((w.table.rows p).rollback k).read j = _
  rw [Row.rollback_of_writer_ne hpk]
  rfl

/-- What a commit makes of the admins of the tenant: it takes one his role, or it keeps all. -/
theorem takes_or_isAdmin_commit (w : Memberships) (k : ℕ) (tenantId : ℤ) :
    w.Takes k tenantId ∨ ∀ u, w.IsAdmin u tenantId →
      (w.table.commit k).committed (u, tenantId) = some "admin" := by
  by_cases htakes : w.Takes k tenantId
  · exact Or.inl htakes
  · refine Or.inr fun u hu => ?_
    rw [Table.committed_commit]
    split_ifs with hwriter
    · by_contra hne
      have hmem : (u, tenantId) ∈ w.table.keys :=
        Table.mem_keys_of_committed_ne_none (by rw [show w.table.committed _ = _ from hu]; simp)
      exact htakes ⟨_, hmem, rfl, hwriter, hu, hne⟩
    · exact hu

/-- The commit of a transaction that takes an admin his role leaves another. -/
theorem Inv.isAdmin_of_takes (h : w.Inv tenantId) {k : ℕ} {x : Transaction}
    (hstage : w.stages k = .ready x) (htakes : w.Takes k tenantId)
    (hlogin : x.isLogin → ∃ p ∈ w.table.keys, p.2 = tenantId ∧ p ≠ x.key ∧
      w.table.committed p = some "admin") :
    ∃ u, (w.table.commit k).committed (u, tenantId) = some "admin" := by
  obtain ⟨p, -, hpten, hwriter, -, hne⟩ := htakes
  obtain ⟨y, hy, hkey, htarget⟩ := h.locked k p hwriter
  obtain rfl : x = y := by simpa [hstage, Stage.flushed] using hy
  have hten : x.tenantId = tenantId := by simpa [hkey, Transaction.key] using hpten
  obtain ⟨q, hqten, hqx, hq⟩ : ∃ q : ℤ × ℤ, q.2 = tenantId ∧ q ≠ x.key ∧
      w.table.committed q = some "admin" := by
    by_cases hl : x.isLogin
    · obtain ⟨q, -, hq⟩ := hlogin hl
      exact ⟨q, hq⟩
    · have hd : x.demotes := by
        rw [htarget] at hne
        unfold Transaction.target Transaction.demotes Transaction.isLogin at *
        cases hc : x.change with
        | setRole role =>
          simp only [hc] at hne
          refine decide_eq_true fun hrole => hne ?_
          simp [hrole, normaliseRole, validRoles]
        | remove => rfl
        | directoryLogin role => simp [hc] at hl
      obtain ⟨u, hu, hadmin⟩ := h.other k x (by rw [hstage]; rfl) hten hd (by rw [hstage]; rfl)
      exact ⟨(u, tenantId), rfl, fun heq => hu (Prod.ext_iff.mp heq).1, hadmin⟩
  refine ⟨q.1, ?_⟩
  rw [← hqten, Table.committed_commit, if_neg, hq]
  intro hwq
  obtain ⟨z, hz, hzkey, -⟩ := h.locked k q hwq
  obtain rfl : x = z := by simpa [hstage, Stage.flushed] using hz
  exact hqx hzkey

/-- The commit of a transaction. -/
theorem Inv.commit (h : w.Inv tenantId) {k : ℕ} {x : Transaction} (hstage : w.stages k = .ready x)
    (horderly : w.Orderly tenantId (.commit k)) :
    ({ w with table := w.table.commit k }.setStage k .ended).Inv tenantId := by
  have hx : (w.stages k).transaction = some x := by rw [hstage]; rfl
  have hadmin : ∃ u, (w.table.commit k).committed (u, tenantId) = some "admin" := by
    rcases takes_or_isAdmin_commit w k tenantId with htakes | hall
    · exact h.isAdmin_of_takes hstage htakes ((horderly htakes).2 x hx)
    · exact h.admin.imp hall
  refine ⟨hadmin, ?_, ?_, ?_⟩
  · intro j p hp
    change (w.table.commit k).writer p = some j at hp
    rw [Table.writer_commit] at hp
    split_ifs at hp with hpk
    have hjk : j ≠ k := by
      rintro rfl
      exact hpk hp
    obtain ⟨y, hy, hkey, hlookup⟩ := h.locked j p hp
    refine ⟨y, by rw [stages_setStage, if_neg hjk, hy], hkey, ?_⟩
    rw [← hlookup]
    change ((w.table.rows p).commit k).read j = _
    rw [Row.commit_of_writer_ne hpk]
    rfl
  · intro j y hy hten hd hpassed
    rw [stages_setStage] at hy hpassed
    split_ifs at hy hpassed with hjk
    · cases hy
    · rcases takes_or_isAdmin_commit w k tenantId with htakes | hall
      · have hbegun := h.begun j fun hidle => by simp [hidle, Stage.transaction] at hy
        exact absurd ⟨y, hy, hd, hten⟩ ((horderly htakes).1 j hbegun hjk)
      · exact (h.other j y hy hten hd hpassed).mono hall
  · intro j hj
    rw [stages_setStage] at hj
    split_ifs at hj with hjk
    · exact hjk ▸ h.begun k (by simp [hstage])
    · exact h.begun j hj

/-- **One event.** -/
theorem Inv.step {e : Event} (h : w.Inv tenantId) (horderly : w.Orderly tenantId e)
    (hstep : w.Step e w') : w'.Inv tenantId := by
  unfold Step Memberships.step at hstep
  cases e with
  | read k x =>
    obtain ⟨⟨hidle, -⟩, rfl⟩ := made_of_guard hstep
    exact h.read hidle
  | check k =>
    simp only at hstep
    split at hstep
    · next x role hstage =>
      have hbegun : w.stages k ≠ .idle := by simp [hstage]
      have hchecked (hpass : x.demotes → ¬w.isLastAdmin k x.tenantId role) :
          (w.setStage k (.checked x role)).Inv tenantId := by
        refine h.setStage hbegun (by simp [hstage, Stage.flushed]) fun y hy hten hd _ => ?_
        obtain rfl := Option.some.inj hy
        exact h.hasOther_of_check hstage hten hd (hpass hd)
      split at hstep
      · next new hchange =>
        have hnot : ¬x.demotes := by simp [Transaction.demotes, hchange]
        split_ifs at hstep
        · obtain rfl := Option.some.inj hstep
          refine h.setStage hbegun (by simp [hstage, Stage.flushed]) fun y hy _ hd _ => ?_
          exact absurd (Option.some.inj hy ▸ hd) hnot
        · obtain rfl := Option.some.inj hstep
          exact hchecked fun hd => absurd hd hnot
      · split_ifs at hstep with hlast
        obtain rfl := Option.some.inj hstep
        exact hchecked fun hd hl => hlast ⟨hd, hl⟩
    · cases hstep
  | load k =>
    simp only at hstep
    split at hstep
    · next x role hstage =>
      have hheld (row : Option String) : (w.setStage k (.held x row)).Inv tenantId := by
        refine h.setStage (by simp [hstage]) (by simp [hstage, Stage.flushed])
          fun y hy hten hd _ => ?_
        exact h.other k y (by rw [hstage]; exact hy) hten hd (by rw [hstage]; rfl)
      split_ifs at hstep
      · obtain rfl := Option.some.inj hstep
        exact hheld role
      · obtain rfl := Option.some.inj hstep
        exact hheld _
    · cases hstep
  | flush k =>
    simp only at hstep
    split at hstep
    · next x row hstage =>
      obtain ⟨table, hflush, rfl⟩ := Option.map_eq_some_iff.mp hstep
      split_ifs
      · exact h.flush hstage hflush rfl rfl
      · exact h.flush hstage hflush rfl rfl
    · cases hstep
  | remaining k keep =>
    simp only at hstep
    split at hstep
    · next x hstage =>
      have hnext {stage : Stage} (hflushed : stage.flushed = some x)
          (hx : stage.transaction = some x) : (w.setStage k stage).Inv tenantId := by
        refine h.setStage (by simp [hstage]) (fun y hy => ?_) fun y hy hten hd _ => ?_
        · rwa [hflushed, ← show (w.stages k).flushed = some x by rw [hstage]; rfl]
        · exact h.other k y (by rw [hstage, ← hy, hx]; rfl) hten hd (by rw [hstage]; rfl)
      split_ifs at hstep
      · obtain rfl := Option.some.inj hstep
        exact hnext rfl rfl
      · obtain rfl := Option.some.inj hstep
        exact hnext rfl rfl
    · cases hstep
  | deleteAccount k =>
    simp only at hstep
    split at hstep
    · next x hstage =>
      obtain ⟨table, hdelete, rfl⟩ := Option.map_eq_some_iff.mp hstep
      have hx : (w.stages k).transaction = some x := by rw [hstage]; rfl
      obtain rfl := Table.eq_of_deleteWhere hdelete fun p hp hu =>
        horderly x hx p hp (of_decide_eq_true hu)
      refine h.setStage (by simp [hstage]) (by simp [hstage, Stage.flushed]) fun y hy hten hd _ => ?_
      exact h.other k y (by rw [hstage]; exact hy) hten hd (by rw [hstage]; rfl)
    · cases hstep
  | commit k =>
    simp only at hstep
    split at hstep
    · next x hstage =>
      obtain rfl := Option.some.inj hstep
      exact h.commit hstage horderly
    · cases hstep
  | abort k =>
    simp only at hstep
    split_ifs at hstep with hidle
    obtain rfl := Option.some.inj hstep
    exact h.abort hidle

/-- **A tenant with an admin keeps one**, in any run in which no admin loses the role while a
request that removes or demotes a member is under way, and no login takes the role of the last
admin. -/
theorem admin_remains {members : List ((ℤ × ℤ) × String)} {l : List Event}
    (hrun : Run (Guarded (Orderly tenantId) Step) (init members) l w)
    (hadmin : ∃ u, (init members).IsAdmin u tenantId) : ∃ u, w.IsAdmin u tenantId := by
  have h : w.Inv tenantId :=
    hrun.invariant (fun _ _ _ h hstep => h.step hstep.1 hstep.2) (inv_init members hadmin)
  exact h.admin

/-! ### Samples -/

/-- Users 1 and 2 are the admins of the default tenant. -/
def sampleMembers : List ((ℤ × ℤ) × String) := [((1, 1), "admin"), ((2, 1), "admin")]

def sampleDemotion (userId : ℤ) : Transaction := ⟨userId, 1, .setRole "editor"⟩

/-- Each demotes the other: the second request is refused after the first has committed. -/
def sampleInTurn : List Event :=
  [.read 0 (sampleDemotion 2), .check 0, .load 0, .flush 0, .commit 0,
    .read 1 (sampleDemotion 1), .abort 1]

/-- The directory gives the only admin another role. -/
def sampleLogin : List Event :=
  [.read 0 ⟨1, 1, .directoryLogin "readonly"⟩, .check 0, .load 0, .flush 0, .commit 0]

instance (w : Memberships) (k : ℕ) (t : ℤ) : Decidable (w.Takes k t) :=
  inferInstanceAs (Decidable (∃ p ∈ w.table.keys, _))

instance (w : Memberships) (k : ℕ) (t : ℤ) : Decidable (w.UnderWay k t) :=
  inferInstanceAs (Decidable (∃ x ∈ (w.stages k).transaction, _))

instance (t : ℤ) (w : Memberships) (e : Event) : Decidable (Orderly t w e) := by
  unfold Orderly
  split <;> infer_instance

def sampleView (w : Memberships) : Option String × Option String :=
  (w.table.committed (1, 1), w.table.committed (2, 1))

theorem admin_remains_after_demotion :
    ∃ w, Run (Guarded (Orderly 1) Step) (init sampleMembers) sampleInTurn w ∧
      sampleView w = (some "admin", some "editor") ∧ ∃ u, w.IsAdmin u 1 := by
  have hview : (sampleInTurn.foldlM
      (fun (w : Memberships) e => if Orderly 1 w e then w.step e else none)
      (init sampleMembers)).map sampleView = some (some "admin", some "editor") := by
    decide
  obtain ⟨w, hw, heq⟩ := Option.map_eq_some_iff.mp hview
  have hrun := Run.guarded_of_foldlM hw
  exact ⟨w, hrun, heq, admin_remains hrun ⟨1, rfl⟩⟩

/-- The directory decides, and the default tenant has no admin left. -/
theorem last_admin_after_login :
    ¬∀ (members : List ((ℤ × ℤ) × String)) (tenantId : ℤ) (l : List Event) (w : Memberships),
      Run Step (init members) l w → (∃ u, (init members).IsAdmin u tenantId) →
        ∃ u, w.IsAdmin u tenantId := by
  intro hall
  have hview : (sampleLogin.foldlM step (init [((1, 1), "admin")])).map
      (fun w => (w.table.committed (1, 1), w.table.keys)) = some (some "readonly", [(1, 1)]) := by
    decide
  obtain ⟨w, hw, heq⟩ := Option.map_eq_some_iff.mp hview
  obtain ⟨hrole, hkeys⟩ := Prod.mk.inj heq
  obtain ⟨u, hu⟩ := hall _ 1 _ w (Run.of_foldlM hw) ⟨1, rfl⟩
  have hmem : (u, 1) ∈ w.table.keys :=
    Table.mem_keys_of_committed_ne_none (by rw [show w.table.committed _ = _ from hu]; simp)
  obtain rfl : u = 1 := by simpa [hkeys] using hmem
  rw [IsAdmin, hrole] at hu
  exact absurd hu (by decide)

end Memberships

end Nodeglow.Users
