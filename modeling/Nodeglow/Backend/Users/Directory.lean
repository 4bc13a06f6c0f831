import Nodeglow.Backend.Tenancy.AccessResolution
import Nodeglow.Foundation.Text

/-!
# Users, memberships and the user routes

Users are global; a membership gives a user a role in one tenant. Two columns of a user repeat what
the membership of the default tenant says: the role, for a rollback to an older release, and the
operator flag, by which the enterprise backend decides who administers the installation.

A `Directory` holds the users and their memberships, and it cannot hold a membership of a user who
does not exist. The services change it, and the routes of the user management call them after their
checks; a route that refuses says why and changes nothing.

Source: `backend/services/memberships.py`; `backend/routers/users.py`, lines 32–240, 299–345 and
367–387; `backend/models/tenant.py`, lines 169–191.
-/

namespace Nodeglow.Users

open Tenancy.Access (Dict validRoles normaliseRole)

/-! ### Dictionaries -/

namespace Dict

variable {β : Type} (d : Dict β) (key key' : ℤ) (v : β)

def erase : Dict β := d.filter fun p => p.1 ≠ key

theorem lookup_map_insert : (d.map fun p => if p.1 = key then (key, v) else p).lookup key' =
    if key' = key then (d.lookup key).map fun _ => v else d.lookup key' := by
  induction d with
  | nil => simp
  | cons p d ih =>
    obtain ⟨k, w⟩ := p
    by_cases hk : k = key
    · subst hk
      by_cases hkey : key' = k
      · simp [hkey]
      · have hne : (key' == k) = false := by simp [hkey]
        simpa [hkey, List.lookup_cons, hne] using ih
    · by_cases hkey : key' = k
      · subst hkey
        simp [hk]
      · simp only [List.map_cons, hk, if_false, List.lookup_cons]
        have hne : (key' == k) = false := by simp [hkey]
        rw [hne, ih]
        by_cases hkey' : key' = key
        · have hne' : (key == k) = false := by simp [Ne.symm hk]
          simp [hkey', hne']
        · simp [hkey']

theorem lookup_insert :
    (Tenancy.Access.Dict.insert d key v).lookup key' =
      if key' = key then some v else d.lookup key' := by
  unfold Tenancy.Access.Dict.insert
  split_ifs with hsome hkey hkey
  · rw [lookup_map_insert, if_pos hkey]
    obtain ⟨w, hw⟩ := Option.isSome_iff_exists.mp hsome
    simp [hw]
  · rw [lookup_map_insert, if_neg hkey]
  · subst hkey
    have hnone : d.lookup key' = none := Option.not_isSome_iff_eq_none.mp hsome
    rw [List.lookup_append, hnone]
    simp
  · rw [List.lookup_append]
    have hne : (key' == key) = false := by simp [hkey]
    simp [List.lookup_cons, hne]

theorem lookup_erase :
    (erase d key).lookup key' = if key' = key then none else d.lookup key' := by
  unfold erase
  induction d with
  | nil => simp
  | cons p d ih =>
    obtain ⟨k, w⟩ := p
    by_cases hk : k = key
    · subst hk
      by_cases hkey : key' = k
      · simpa [hkey] using ih
      · have hne : (key' == k) = false := by simp [hkey]
        simpa [List.lookup_cons, hne] using ih
    · by_cases hkey : key' = k
      · subst hkey
        simp [hk]
      · have hne : (key' == k) = false := by simp [hkey]
        simpa [hk, List.lookup_cons, hne] using ih

end Dict

/-! ### The directory -/

/-- `DEFAULT_TENANT_ID`. -/
def defaultTenantId : ℤ := 1

structure UserRow where
  username : String
  passwordHash : String
  /-- The mirror of the role in the default tenant. -/
  role : Option String
  authSource : Option String
  isOperator : Bool
  deriving DecidableEq, Repr

/-- The users, by their ids, and their roles by tenant. -/
structure Directory where
  /-- The ids that have been given out. -/
  ids : List ℤ
  nextId : ℤ
  users : ℤ → Option UserRow
  memberships : ℤ → Dict String
  /-- The user is a member of a provider. -/
  providerMember : ℤ → Bool
  nodup : ids.Nodup
  lt_nextId : ∀ u ∈ ids, u < nextId
  mem_ids : ∀ u, (users u).isSome → u ∈ ids
  /-- The foreign key of the memberships. -/
  member : ∀ u, memberships u ≠ [] → (users u).isSome

namespace Directory

variable (d : Directory)

/-- `membership`. -/
def membership (userId tenantId : ℤ) : Option String := (d.memberships userId).lookup tenantId

/-- Insert or change a membership of a user who exists. -/
def putMembership (userId tenantId : ℤ) (role : String) : Directory :=
  if huser : (d.users userId).isSome then
    { d with
      memberships := Function.update d.memberships userId
        (Tenancy.Access.Dict.insert (d.memberships userId) tenantId role)
      member := by
        intro u hu
        by_cases h : u = userId
        · rwa [h]
        · rw [Function.update_of_ne h] at hu
          exact d.member u hu }
  else d

def dropMembership (userId tenantId : ℤ) : Directory :=
  { d with
    memberships := Function.update d.memberships userId
      (Dict.erase (d.memberships userId) tenantId)
    member := by
      intro u hu
      by_cases h : u = userId
      · subst h
        rw [Function.update_self] at hu
        exact d.member u fun hnil => hu (by simp [Dict.erase, hnil])
      · rw [Function.update_of_ne h] at hu
        exact d.member u hu }

/-- Change the columns of the users. -/
def mapUsers (f : ℤ → UserRow → UserRow) : Directory :=
  { d with
    users := fun u => (d.users u).map (f u)
    mem_ids := fun u hu => d.mem_ids u (by simpa using hu)
    member := fun u hu => by simpa using d.member u hu }

/-- Insert a user with the next id, without a membership. -/
def insertUser (row : UserRow) : Directory :=
  { d with
    ids := d.nextId :: d.ids
    nextId := d.nextId + 1
    users := Function.update d.users d.nextId (some row)
    nodup := List.nodup_cons.mpr ⟨fun h => lt_irrefl _ (d.lt_nextId _ h), d.nodup⟩
    lt_nextId := by
      intro u hu
      rcases List.mem_cons.mp hu with rfl | hu
      · omega
      · have := d.lt_nextId u hu
        omega
    mem_ids := by
      intro u hu
      by_cases h : u = d.nextId
      · exact h ▸ List.mem_cons_self
      · rw [Function.update_of_ne h] at hu
        exact List.mem_cons_of_mem _ (d.mem_ids u hu)
    member := by
      intro u hu
      by_cases h : u = d.nextId
      · rw [h, Function.update_self]
        rfl
      · rw [Function.update_of_ne h]
        exact d.member u hu }

/-- Delete a user, and his memberships with him. -/
def removeUser (userId : ℤ) : Directory :=
  { d with
    users := Function.update d.users userId none
    memberships := Function.update d.memberships userId []
    mem_ids := by
      intro u hu
      by_cases h : u = userId
      · rw [h, Function.update_self] at hu
        cases hu
      · rw [Function.update_of_ne h] at hu
        exact d.mem_ids u hu
    member := by
      intro u hu
      by_cases h : u = userId
      · rw [h, Function.update_self] at hu
        exact absurd rfl hu
      · rw [Function.update_of_ne h] at hu ⊢
        exact d.member u hu }

section Lemmas

variable {d}

theorem memberships_of_users_eq_none {u : ℤ} (h : d.users u = none) : d.memberships u = [] := by
  by_contra hne
  simpa [h] using d.member u hne

theorem users_nextId : d.users d.nextId = none := by
  by_contra hne
  exact lt_irrefl _ (d.lt_nextId _ (d.mem_ids _ (Option.isSome_iff_ne_none.mpr hne)))

@[simp]
theorem users_putMembership (u t : ℤ) (role : String) :
    (d.putMembership u t role).users = d.users := by
  unfold putMembership
  split_ifs <;> rfl

theorem putMembership_of_none {u : ℤ} (hu : d.users u = none) (t : ℤ) (role : String) :
    d.putMembership u t role = d := by
  simp [putMembership, hu]

theorem membership_putMembership {u : ℤ} (hu : (d.users u).isSome) (t : ℤ) (role : String)
    (v t' : ℤ) :
    (d.putMembership u t role).membership v t' =
      if v = u ∧ t' = t then some role else d.membership v t' := by
  unfold putMembership membership
  rw [dif_pos hu]
  by_cases hv : v = u
  · subst hv
    simp [Dict.lookup_insert]
  · simp [hv]

theorem membership_dropMembership (u t v t' : ℤ) :
    (d.dropMembership u t).membership v t' =
      if v = u ∧ t' = t then none else d.membership v t' := by
  unfold dropMembership membership
  by_cases hv : v = u
  · subst hv
    simp [Dict.lookup_erase]
  · simp [hv]

@[simp]
theorem users_mapUsers (f : ℤ → UserRow → UserRow) (u : ℤ) :
    (d.mapUsers f).users u = (d.users u).map (f u) := rfl

@[simp]
theorem membership_mapUsers (f : ℤ → UserRow → UserRow) (u t : ℤ) :
    (d.mapUsers f).membership u t = d.membership u t := rfl

@[simp]
theorem membership_insertUser (row : UserRow) (u t : ℤ) :
    (d.insertUser row).membership u t = d.membership u t := rfl

theorem users_insertUser (row : UserRow) (u : ℤ) :
    (d.insertUser row).users u = if u = d.nextId then some row else d.users u := by
  simp [insertUser, Function.update_apply]

theorem users_removeUser (u v : ℤ) :
    (d.removeUser u).users v = if v = u then none else d.users v := by
  simp [removeUser, Function.update_apply]

theorem membership_removeUser_of_ne {u v : ℤ} (hv : v ≠ u) (t : ℤ) :
    (d.removeUser u).membership v t = d.membership v t := by
  simp [removeUser, membership, Function.update_of_ne hv]

end Lemmas

/-! ### The services -/

/-- `_mirror_role`. -/
def mirrorRole (userId tenantId : ℤ) (role : String) : Directory :=
  if tenantId = defaultTenantId then
    d.mapUsers fun u row =>
      if u = userId then { row with role := some role, isOperator := role = "admin" } else row
  else d

/-- `grant`, to a user who exists. -/
def grant (userId tenantId : ℤ) (role : String) : Directory :=
  (d.putMembership userId tenantId (normaliseRole role)).mirrorRole userId tenantId
    (normaliseRole role)

/-- `revoke`. -/
def revoke (userId tenantId : ℤ) : Directory := d.dropMembership userId tenantId

/-- `admin_count`. -/
def adminCount (tenantId : ℤ) : ℕ :=
  (d.ids.filter fun u => d.membership u tenantId = some "admin").length

end Directory

/-- The role that older data has for a user: `normalise_role(u.role or "admin", "admin")`. -/
def UserRow.columnRole (row : UserRow) : String :=
  let role := (row.role.filter (· ≠ "")).getD "admin"
  if role ∈ validRoles then role else "admin"

namespace Directory

variable (d : Directory)

/-- `sync_from_users_role`. -/
def syncFromUsersRole (tenantId : ℤ) : Directory :=
  let synced : Directory :=
    { d with
      memberships := fun u =>
        match d.users u with
        | some row => Tenancy.Access.Dict.insert (d.memberships u) tenantId row.columnRole
        | none => d.memberships u
      member := by
        intro u hu
        cases h : d.users u with
        | some row => rfl
        | none =>
          simp only [h] at hu
          exact absurd (h ▸ d.member u hu) (by simp) }
  if tenantId = defaultTenantId then
    synced.mapUsers fun _ row => { row with isOperator := row.columnRole = "admin" }
  else synced

/-- `backfill_memberships`. -/
def backfillMemberships (tenantId : ℤ) : Directory :=
  { d with
    memberships := fun u =>
      match d.users u with
      | some row =>
          if d.memberships u = [] then [(tenantId, row.columnRole)] else d.memberships u
      | none => d.memberships u
    member := by
      intro u hu
      cases h : d.users u with
      | some row => rfl
      | none =>
        simp only [h] at hu
        exact absurd (h ▸ d.member u hu) (by simp) }

end Directory

/-! ### The routes -/

/-- The installation's password functions. -/
structure Passwords where
  /-- `validate_password`. -/
  error : String → Option String
  /-- `hash_password`. -/
  hash : String → String
  /-- `verify_password`. -/
  verify : String → String → Bool

/-- What the routes read of a request: its user and tenant, and the user's rights there. -/
structure Request where
  currentId : Option ℤ
  tenantId : ℤ
  admin : Bool
  viaSupport : Bool
  operator : Bool
  deriving DecidableEq, Repr

/-- `SUPPORT_IAM_REFUSED`. -/
def supportIamRefused : String :=
  "Support access cannot manage users, passwords, API keys or install tokens of this tenant."

/-- `FOREIGN_IDENTITY`. -/
def foreignIdentity : String :=
  "This user also has access outside this tenant (another tenant, the provider or the " ++
  "installation); only the user or an operator can change their credentials."

/-- `_refuse_change`. -/
def Request.refuseChange (r : Request) : Option String :=
  if r.currentId = none ∨ !r.admin then some "Admin access required"
  else if r.viaSupport then some supportIamRefused
  else none

/-- Where else an identity has access. -/
structure Reach where
  operator : Bool
  tenant : Bool
  provider : Bool
  deriving DecidableEq, Repr

namespace Directory

variable (P : Passwords) (d : Directory) (r : Request)

/-- `_reach`. -/
def reach (userId : ℤ) (user : UserRow) : Reach where
  operator := user.isOperator
  tenant := (d.memberships userId).any fun p => p.1 ≠ r.tenantId
  provider := d.providerMember userId

/-- `_may_set_credentials`. -/
def maySetCredentials (userId : ℤ) (user : UserRow) : Bool :=
  r.operator || d.reach r userId user = ⟨false, false, false⟩

/-- `_verify_password`. -/
def verifyPassword (user : UserRow) (candidate : Option String) : Bool :=
  match candidate with
  | none => false
  | some candidate =>
      candidate ≠ "" && user.authSource ≠ some "ldap" && P.verify candidate user.passwordHash

/-- `_member`. -/
def memberOf (userId : ℤ) : Option (UserRow × String) :=
  match d.users userId, d.membership userId r.tenantId with
  | some user, some role => some (user, normaliseRole role)
  | _, _ => none

/-- `_is_last_admin`. -/
def isLastAdmin (role : String) : Bool := role = "admin" && d.adminCount r.tenantId ≤ 1

/-- Whether `_remove_from_tenant` keeps the account. -/
def keepsAccount (userId : ℤ) (user : UserRow) : Bool :=
  let reach := d.reach r userId user
  reach.provider || (reach.operator && !r.operator)

/-- `_remove_from_tenant`. -/
def removeFromTenant (userId : ℤ) (user : UserRow) : Directory :=
  let revoked := d.revoke userId r.tenantId
  if revoked.memberships userId = [] ∧ !d.keepsAccount r userId user then revoked.removeUser userId
  else revoked

/-- The user name is taken. -/
def usernameExists (username : String) : Bool :=
  d.ids.any fun u => (d.users u).any fun row => row.username = username

/-- A new user with a membership of the request's tenant. -/
def insertMember (username password role : String) : Directory :=
  (d.insertUser ⟨username, P.hash password, some role, some "local", false⟩).grant d.nextId
    r.tenantId role

/-- The role of a new user. -/
def newRole (role : String) : String := if role ∈ validRoles then role else "readonly"

/-- `create_user_api`. -/
def createUserApi (username password role : String) : Except String Directory :=
  match r.refuseChange with
  | some error => .error error
  | none =>
      let username := Text.strip username
      if username = "" ∨ password = "" then .error "Username and password required"
      else
        match P.error password with
        | some error => .error error
        | none =>
            if d.usernameExists username then .error "Username already exists"
            else .ok (d.insertMember P r username password (newRole role))

/-- `add_user`. -/
def addUser (username password role : String) : Except String Directory :=
  match r.refuseChange with
  | some error => .error error
  | none =>
      match P.error password with
      | some error => .error error
      | none =>
          let username := Text.strip username
          if d.usernameExists username then .error "/users?error=exists"
          else .ok (d.insertMember P r username password (newRole role))

/-- The checks and the change of `delete_user_api`, with the answers to a request of one's own
removal and to the removal of the last admin. -/
def deleteMember (userId : ℤ) (self last : String) : Except String Directory :=
  match r.refuseChange with
  | some error => .error error
  | none =>
      if r.currentId = some userId then .error self
      else
        match d.memberOf r userId with
        | none => .error "User not found"
        | some (user, role) =>
            if d.isLastAdmin r role then .error last else .ok (d.removeFromTenant r userId user)

/-- `delete_user_api`. -/
def deleteUserApi (userId : ℤ) : Except String Directory :=
  d.deleteMember r userId "Cannot delete yourself" "Cannot delete the last admin"

/-- `delete_user`. -/
def deleteUser (userId : ℤ) : Except String Directory :=
  d.deleteMember r userId "/users?error=self_delete" "/users?error=last_admin"

/-- `update_role`. -/
def updateRole (userId : ℤ) (role : String) : Except String Directory :=
  match r.refuseChange with
  | some error => .error error
  | none =>
      if role ∉ validRoles then .error "/users?error=invalid_role"
      else
        match d.memberOf r userId with
        | none => .error "User not found"
        | some (_, current) =>
            if role ≠ "admin" ∧ d.isLastAdmin r current then .error "/users?error=last_admin"
            else .ok (d.grant userId r.tenantId role)

/-- The part of `update_user_api` that sets the role. -/
def updateUserRole (userId : ℤ) (current : String) : Option String → Except String Directory
  | none => .ok d
  | some role =>
      if role ∉ validRoles then .error "Invalid role"
      else if role ≠ "admin" ∧ d.isLastAdmin r current then .error "Cannot demote the last admin"
      else .ok (d.grant userId r.tenantId role)

/-- The part of `update_user_api` that sets the password. -/
def updateUserPassword (userId : ℤ) (user : UserRow) (currentPassword : Option String) :
    Option String → Except String Directory
  | none => .ok d
  | some password =>
      if password = "" then .ok d
      else if r.currentId = some userId ∧ !verifyPassword P user currentPassword then
        .error "Current password is incorrect"
      else
        match P.error password with
        | some error => .error error
        | none =>
            .ok (d.mapUsers fun u row =>
              if u = userId then { row with passwordHash := P.hash password } else row)

/-- `update_user_api`; what has been changed before an error is not committed. -/
def updateUserApi (userId : ℤ) (role password currentPassword : Option String) :
    Except String Directory :=
  match r.refuseChange with
  | some error => .error error
  | none =>
      match d.memberOf r userId with
      | none => .error "User not found"
      | some (user, current) =>
          if password.any (· ≠ "") ∧ r.currentId ≠ some userId ∧ !d.maySetCredentials r userId user
          then .error foreignIdentity
          else do
            let changed ← d.updateUserRole r userId current role
            changed.updateUserPassword P r userId user currentPassword password

end Directory

end Nodeglow.Users
