import Nodeglow.Backend.Users.Directory

/-!
# The operator flag and the role column

The membership of the default tenant says who administers the installation. The operator flag and
the role column of a user repeat it (`Directory.Mirrored`). Granting keeps the copies; revoking the
membership of the default tenant does not, nor does giving a user his first membership from the role
column, nor the synchronisation of a user whose role column has no valid role.

Each operation keeps the copies exactly under a condition on what it finds
(`Directory.Keeps`, `Directory.mirrored_step_iff`), so every run of such operations does
(`Directory.mirrored_run`). Without it an admin who is removed from the default tenant and belongs
to another one stays an operator (`Directory.operator_after_removal`).

Source: `backend/services/memberships.py`, lines 44–78 and 99–135; `backend/routers/users.py`, lines
121–240 and 299–387; `backend/services/tenancy.py`, lines 361–375.
-/

namespace Nodeglow.Users

open Tenancy.Access (validRoles normaliseRole)

inductive Operation
  | grant (userId tenantId : ℤ) (role : String)
  | revoke (userId tenantId : ℤ)
  | syncFromUsersRole (tenantId : ℤ)
  | backfillMemberships (tenantId : ℤ)
  | createUserApi (r : Request) (username password role : String)
  | addUser (r : Request) (username password role : String)
  | updateUserApi (r : Request) (userId : ℤ) (role password currentPassword : Option String)
  | updateRole (r : Request) (userId : ℤ) (role : String)
  | deleteUserApi (r : Request) (userId : ℤ)
  | deleteUser (r : Request) (userId : ℤ)
  deriving DecidableEq, Repr

namespace Directory

variable (P : Passwords) (d : Directory)

/-- What a route leaves: its change, or nothing new if it refuses. -/
def after (result : Except String Directory) : Directory :=
  match result with
  | .ok d' => d'
  | .error _ => d

/-- One operation. -/
def step : Operation → Directory
  | .grant userId tenantId role => d.grant userId tenantId role
  | .revoke userId tenantId => d.revoke userId tenantId
  | .syncFromUsersRole tenantId => d.syncFromUsersRole tenantId
  | .backfillMemberships tenantId => d.backfillMemberships tenantId
  | .createUserApi r username password role =>
      d.after (d.createUserApi P r username password role)
  | .addUser r username password role => d.after (d.addUser P r username password role)
  | .updateUserApi r userId role password currentPassword =>
      d.after (d.updateUserApi P r userId role password currentPassword)
  | .updateRole r userId role => d.after (d.updateRole r userId role)
  | .deleteUserApi r userId => d.after (d.deleteUserApi r userId)
  | .deleteUser r userId => d.after (d.deleteUser r userId)

/-- The transition relation of `Directory.step`. -/
def Step (d : Directory) (op : Operation) (d' : Directory) : Prop := d' = d.step P op

end Directory

/-- The copies in a user's columns agree with the membership of the default tenant. -/
def UserRow.Agrees (row : UserRow) (membership : Option String) : Prop :=
  (row.isOperator = true ↔ membership = some "admin") ∧
    ∀ role, membership = some role → row.role = some role

namespace Directory

variable (P : Passwords) (d : Directory)

/-- The operator flag is set for the admins of the default tenant, and the role column of its
members has their role. -/
def Mirrored : Prop :=
  ∀ u row, d.users u = some row → row.Agrees (d.membership u defaultTenantId)

/-- A removal takes the account with it. -/
def DeletesAccount (r : Request) (userId : ℤ) : Prop :=
  ∀ user, d.users userId = some user →
    (d.revoke userId r.tenantId).memberships userId = [] ∧ d.keepsAccount r userId user = false

/-- The condition under which the removal of a member keeps the copies: an admin of the default
tenant who is removed from it loses his account. -/
def KeepsOnRemoval (r : Request) (userId : ℤ) : Prop :=
  r.refuseChange = none → r.currentId ≠ some userId → 1 < d.adminCount r.tenantId →
    r.tenantId = defaultTenantId → d.membership userId defaultTenantId = some "admin" →
      d.DeletesAccount r userId

/-- **The condition under which an operation keeps the copies.** -/
def Keeps (d : Directory) : Operation → Prop
  | .revoke userId tenantId =>
      tenantId = defaultTenantId → d.membership userId defaultTenantId ≠ some "admin"
  | .syncFromUsersRole tenantId =>
      tenantId = defaultTenantId →
        ∀ u row, d.users u = some row → ∃ role ∈ validRoles, row.role = some role
  | .backfillMemberships tenantId =>
      tenantId = defaultTenantId →
        ∀ u row, d.users u = some row → d.memberships u = [] →
          ∃ role ∈ validRoles, role ≠ "admin" ∧ row.role = some role
  | .deleteUserApi r userId | .deleteUser r userId => d.KeepsOnRemoval r userId
  | _ => True

variable {P d}

/-! ### The services -/

theorem users_grant (userId tenantId : ℤ) (role : String) (u : ℤ) :
    (d.grant userId tenantId role).users u =
      if tenantId = defaultTenantId ∧ u = userId then
        (d.users u).map fun row =>
          { row with role := some (normaliseRole role), isOperator := normaliseRole role = "admin" }
      else d.users u := by
  unfold Directory.grant mirrorRole
  split_ifs with htenant hand hand
  · simp [hand.2]
  · have hu : u ≠ userId := fun hu => hand ⟨htenant, hu⟩
    simp [hu]
  · exact absurd hand.1 htenant
  · rw [users_putMembership]

theorem membership_grant {userId : ℤ} (huser : (d.users userId).isSome) (tenantId : ℤ)
    (role : String) (u t : ℤ) :
    (d.grant userId tenantId role).membership u t =
      if u = userId ∧ t = tenantId then some (normaliseRole role) else d.membership u t := by
  unfold Directory.grant mirrorRole
  split_ifs with htenant <;>
    simp only [membership_mapUsers, membership_putMembership huser] <;> simp_all

theorem Mirrored.grant (h : d.Mirrored) {userId : ℤ} (huser : (d.users userId).isSome)
    (tenantId : ℤ) (role : String) : (d.grant userId tenantId role).Mirrored := by
  intro u row hrow
  rw [users_grant] at hrow
  rw [membership_grant huser]
  by_cases hmirror : tenantId = defaultTenantId ∧ u = userId
  · rw [if_pos hmirror] at hrow
    rw [if_pos ⟨hmirror.2, hmirror.1.symm⟩]
    obtain ⟨old, -, rfl⟩ := Option.map_eq_some_iff.mp hrow
    simp [UserRow.Agrees]
  · rw [if_neg hmirror] at hrow
    rw [if_neg fun hand => hmirror ⟨hand.2.symm, hand.1⟩]
    exact h u row hrow

/-- There is nobody to grant a membership to. -/
theorem Mirrored.grant_of_none (h : d.Mirrored) {userId : ℤ} (huser : d.users userId = none)
    (tenantId : ℤ) (role : String) : (d.grant userId tenantId role).Mirrored := by
  intro u row hrow
  rw [users_grant] at hrow
  have hmembership : (d.grant userId tenantId role).membership u defaultTenantId =
      d.membership u defaultTenantId := by
    unfold Directory.grant mirrorRole
    rw [putMembership_of_none huser]
    split_ifs <;> rfl
  rw [hmembership]
  split_ifs at hrow with hmirror
  · simp [hmirror.2, huser] at hrow
  · exact h u row hrow

/-- Revoking keeps the copies unless it takes the membership of an admin of the default tenant. -/
theorem Mirrored.revoke_iff (h : d.Mirrored) (userId tenantId : ℤ) :
    (d.revoke userId tenantId).Mirrored ↔
      (tenantId = defaultTenantId → d.membership userId defaultTenantId ≠ some "admin") := by
  have hmembership (u : ℤ) : (d.revoke userId tenantId).membership u defaultTenantId =
      if u = userId ∧ defaultTenantId = tenantId then none
      else d.membership u defaultTenantId := membership_dropMembership ..
  constructor
  · rintro h' rfl hadmin
    obtain ⟨row, hrow⟩ : ∃ row, d.users userId = some row := by
      rw [← Option.isSome_iff_exists]
      refine d.member userId fun hnil => ?_
      simp [Directory.membership, hnil] at hadmin
    have hflag := (h userId row hrow).1.mpr hadmin
    have hgone := (h' userId row hrow).1.mp hflag
    simp [hmembership] at hgone
  · intro hkeeps u row hrow
    rw [hmembership]
    split_ifs with hu
    · obtain ⟨rfl, rfl⟩ := hu
      refine ⟨?_, by simp⟩
      have hne := hkeeps rfl
      simpa [hne] using (h u row hrow).1
    · exact h u row hrow

theorem columnRole_eq_iff {row : UserRow} :
    row.role = some row.columnRole ↔ ∃ role ∈ validRoles, row.role = some role := by
  constructor
  · intro h
    refine ⟨row.columnRole, ?_, h⟩
    simp only [UserRow.columnRole]
    split_ifs with hvalid
    · exact hvalid
    · decide
  · rintro ⟨role, hrole, heq⟩
    have hne : role ≠ "" := fun h => absurd (h ▸ hrole) (by decide)
    simp [UserRow.columnRole, heq, Option.filter, hne, hrole]

theorem users_syncFromUsersRole (tenantId u : ℤ) :
    (d.syncFromUsersRole tenantId).users u =
      if tenantId = defaultTenantId then
        (d.users u).map fun row => { row with isOperator := row.columnRole = "admin" }
      else d.users u := by
  unfold syncFromUsersRole
  split_ifs <;> rfl

theorem membership_syncFromUsersRole {u : ℤ} {row : UserRow} (hrow : d.users u = some row)
    (tenantId t : ℤ) :
    (d.syncFromUsersRole tenantId).membership u t =
      if t = tenantId then some row.columnRole else d.membership u t := by
  unfold syncFromUsersRole
  split_ifs with htenant ht ht <;>
    simp [Directory.membership, mapUsers, hrow, Dict.lookup_insert, ht]

/-- The synchronisation with the default tenant keeps the copies unless a user has no valid role. -/
theorem Mirrored.syncFromUsersRole_iff (h : d.Mirrored) (tenantId : ℤ) :
    (d.syncFromUsersRole tenantId).Mirrored ↔ (tenantId = defaultTenantId →
      ∀ u row, d.users u = some row → ∃ role ∈ validRoles, row.role = some role) := by
  constructor
  · rintro h' rfl u row hrow
    have hafter := h' u _ (by rw [users_syncFromUsersRole, if_pos rfl, hrow]; rfl)
    rw [membership_syncFromUsersRole hrow, if_pos rfl] at hafter
    exact columnRole_eq_iff.mp (hafter.2 row.columnRole rfl)
  · intro hkeeps u row hrow
    rw [users_syncFromUsersRole] at hrow
    split_ifs at hrow with htenant
    · obtain ⟨old, hold, rfl⟩ := Option.map_eq_some_iff.mp hrow
      rw [membership_syncFromUsersRole hold, if_pos htenant.symm]
      refine ⟨by simp, ?_⟩
      rintro role ⟨⟩
      exact columnRole_eq_iff.mpr (hkeeps htenant u old hold)
    · rw [membership_syncFromUsersRole hrow, if_neg (Ne.symm htenant)]
      exact h u row hrow

theorem membership_backfillMemberships {u : ℤ} {row : UserRow} (hrow : d.users u = some row)
    (tenantId t : ℤ) :
    (d.backfillMemberships tenantId).membership u t =
      if d.memberships u = [] ∧ t = tenantId then some row.columnRole else d.membership u t := by
  unfold backfillMemberships Directory.membership
  simp only [hrow]
  by_cases hnil : d.memberships u = []
  · by_cases ht : t = tenantId
    · simp [hnil, ht]
    · have hne : (t == tenantId) = false := by simp [ht]
      simp [hnil, ht, List.lookup_cons, hne]
  · simp [hnil]

/-- First memberships of the default tenant keep the copies if they make no admin and follow a
valid role. -/
theorem Mirrored.backfillMemberships_iff (h : d.Mirrored) (tenantId : ℤ) :
    (d.backfillMemberships tenantId).Mirrored ↔ (tenantId = defaultTenantId →
      ∀ u row, d.users u = some row → d.memberships u = [] →
        ∃ role ∈ validRoles, role ≠ "admin" ∧ row.role = some role) := by
  have hflag {u : ℤ} {row : UserRow} (hrow : d.users u = some row) (hnil : d.memberships u = []) :
      row.isOperator = false := by
    have hiff := (h u row hrow).1
    simpa [Directory.membership, hnil] using hiff
  constructor
  · rintro h' rfl u row hrow hnil
    have hafter := h' u row hrow
    rw [membership_backfillMemberships hrow, if_pos ⟨hnil, rfl⟩] at hafter
    have hcolumn := hafter.2 row.columnRole rfl
    obtain ⟨role, hrole, heq⟩ := columnRole_eq_iff.mp hcolumn
    refine ⟨role, hrole, ?_, heq⟩
    rintro rfl
    have hoperator := hafter.1.mpr (by rw [← hcolumn, heq])
    simp [hflag hrow hnil] at hoperator
  · intro hkeeps u row hrow
    change d.users u = some row at hrow
    rw [membership_backfillMemberships hrow]
    split_ifs with hnew
    · obtain ⟨hnil, rfl⟩ := hnew
      obtain ⟨role, hrole, hne, heq⟩ := hkeeps rfl u row hrow hnil
      have hcolumn := columnRole_eq_iff.mpr ⟨role, hrole, heq⟩
      refine ⟨?_, fun role' hrole' => hcolumn.trans hrole'⟩
      rw [hflag hrow hnil, ← hcolumn, heq]
      simpa using hne
    · exact h u row hrow

/-! ### The routes -/

theorem Mirrored.mapUsers (h : d.Mirrored) {f : ℤ → UserRow → UserRow}
    (hf : ∀ u row, (f u row).isOperator = row.isOperator ∧ (f u row).role = row.role) :
    (d.mapUsers f).Mirrored := by
  intro u row hrow
  obtain ⟨old, hold, rfl⟩ := Option.map_eq_some_iff.mp hrow
  rw [membership_mapUsers, UserRow.Agrees, (hf u old).1, (hf u old).2]
  exact h u old hold

theorem Mirrored.insertMember (h : d.Mirrored) (r : Request) (username password role : String) :
    (d.insertMember P r username password role).Mirrored := by
  have hinsert : (d.insertUser ⟨username, P.hash password, some role, some "local", false⟩).Mirrored := by
    intro u row hrow
    rw [users_insertUser] at hrow
    rw [membership_insertUser]
    split_ifs at hrow with hu
    · obtain rfl := Option.some.inj hrow
      have hnil := memberships_of_users_eq_none (users_nextId (d := d))
      simp [hu, UserRow.Agrees, Directory.membership, hnil]
    · exact h u row hrow
  exact hinsert.grant (by simp [users_insertUser]) r.tenantId role

theorem Mirrored.after (h : d.Mirrored) {result : Except String Directory}
    (hok : ∀ d', result = .ok d' → d'.Mirrored) : (d.after result).Mirrored := by
  cases result with
  | ok d' => exact hok d' rfl
  | error _ => exact h

theorem Mirrored.createUserApi (h : d.Mirrored) (r : Request) (username password role : String) :
    (d.after (d.createUserApi P r username password role)).Mirrored := by
  refine h.after fun d' hd' => ?_
  unfold Directory.createUserApi at hd'
  split at hd'
  · cases hd'
  · dsimp only at hd'
    split at hd'
    · cases hd'
    · split at hd'
      · cases hd'
      · split_ifs at hd'
        obtain rfl := Except.ok.inj hd'
        exact h.insertMember r _ _ _

theorem Mirrored.addUser (h : d.Mirrored) (r : Request) (username password role : String) :
    (d.after (d.addUser P r username password role)).Mirrored := by
  refine h.after fun d' hd' => ?_
  unfold Directory.addUser at hd'
  split at hd'
  · cases hd'
  · split at hd'
    · cases hd'
    · dsimp only at hd'
      split_ifs at hd'
      obtain rfl := Except.ok.inj hd'
      exact h.insertMember r _ _ _

theorem memberOf_eq_some {r : Request} {userId : ℤ} {user : UserRow} {role : String}
    (h : d.memberOf r userId = some (user, role)) :
    d.users userId = some user ∧
      ∃ stored, d.membership userId r.tenantId = some stored ∧ role = normaliseRole stored := by
  unfold memberOf at h
  split at h
  · next user' stored huser hstored =>
    obtain ⟨rfl, rfl⟩ : user' = user ∧ normaliseRole stored = role := by simpa using h
    exact ⟨huser, stored, hstored, rfl⟩
  · cases h

theorem Mirrored.updateRole (h : d.Mirrored) (r : Request) (userId : ℤ) (role : String) :
    (d.after (d.updateRole r userId role)).Mirrored := by
  refine h.after fun d' hd' => ?_
  unfold Directory.updateRole at hd'
  split at hd'
  · cases hd'
  · split_ifs at hd'
    split at hd'
    · cases hd'
    · next user current hmember =>
      split_ifs at hd'
      obtain rfl := Except.ok.inj hd'
      exact h.grant (by simp [(memberOf_eq_some hmember).1]) r.tenantId role

theorem Mirrored.updateUserRole (h : d.Mirrored) (r : Request) {userId : ℤ}
    (huser : (d.users userId).isSome) (current : String) (role : Option String) {d' : Directory}
    (hd' : d.updateUserRole r userId current role = .ok d') : d'.Mirrored := by
  unfold Directory.updateUserRole at hd'
  split at hd'
  · exact Except.ok.inj hd' ▸ h
  · split_ifs at hd'
    exact Except.ok.inj hd' ▸ h.grant huser r.tenantId _

theorem Mirrored.updateUserPassword (h : d.Mirrored) (r : Request) (userId : ℤ) (user : UserRow)
    (currentPassword password : Option String) {d' : Directory}
    (hd' : d.updateUserPassword P r userId user currentPassword password = .ok d') :
    d'.Mirrored := by
  unfold Directory.updateUserPassword at hd'
  split at hd'
  · exact Except.ok.inj hd' ▸ h
  · split_ifs at hd'
    · exact Except.ok.inj hd' ▸ h
    · split at hd'
      · cases hd'
      · obtain rfl := Except.ok.inj hd'
        refine h.mapUsers fun u row => ?_
        split_ifs <;> exact ⟨rfl, rfl⟩

theorem Mirrored.updateUserApi (h : d.Mirrored) (r : Request) (userId : ℤ)
    (role password currentPassword : Option String) :
    (d.after (d.updateUserApi P r userId role password currentPassword)).Mirrored := by
  refine h.after fun d' hd' => ?_
  unfold Directory.updateUserApi at hd'
  split at hd'
  · cases hd'
  · split at hd'
    · cases hd'
    · next user current hmember =>
      split_ifs at hd'
      have huser : (d.users userId).isSome := by simp [(memberOf_eq_some hmember).1]
      cases hrole : d.updateUserRole r userId current role with
      | error e =>
        rw [hrole] at hd'
        cases hd'
      | ok changed =>
        rw [hrole] at hd'
        exact (h.updateUserRole r huser current role hrole).updateUserPassword r userId user _ _ hd'

/-- A removal that takes the account with it. -/
theorem Mirrored.removeFromTenant_of_deleted (h : d.Mirrored) {r : Request} {userId : ℤ}
    {user : UserRow} (hnil : (d.revoke userId r.tenantId).memberships userId = [])
    (hkeep : d.keepsAccount r userId user = false) : (d.removeFromTenant r userId user).Mirrored := by
  intro u row hrow
  simp only [removeFromTenant, hnil, hkeep, Bool.not_false, and_self, if_true] at hrow ⊢
  rw [users_removeUser] at hrow
  split_ifs at hrow with hu
  · rw [membership_removeUser_of_ne hu]
    change row.Agrees ((d.dropMembership userId r.tenantId).membership u defaultTenantId)
    rw [membership_dropMembership, if_neg fun hand => hu hand.1]
    exact h u row hrow

/-- The account is kept: what is left is the revocation. -/
theorem removeFromTenant_of_kept {r : Request} {userId : ℤ} {user : UserRow}
    (hkept : ¬((d.revoke userId r.tenantId).memberships userId = [] ∧
      d.keepsAccount r userId user = false)) :
    d.removeFromTenant r userId user = d.revoke userId r.tenantId := by
  simp only [removeFromTenant]
  exact if_neg (by simpa using hkept)

/-- The removal of a member keeps the copies exactly under the condition. -/
theorem Mirrored.deleteMember_iff (h : d.Mirrored) (r : Request) (userId : ℤ) (self last : String) :
    (d.after (d.deleteMember r userId self last)).Mirrored ↔ d.KeepsOnRemoval r userId := by
  unfold Directory.deleteMember KeepsOnRemoval
  cases hrefuse : r.refuseChange with
  | some error => simpa [Directory.after] using h
  | none =>
    by_cases hself : r.currentId = some userId
    · simpa [hself, Directory.after] using h
    · simp only [hself, if_false]
      cases hmember : d.memberOf r userId with
      | none =>
        refine iff_of_true h fun _ _ _ htenant hadmin => ?_
        intro user huser
        simp [memberOf, huser, htenant, hadmin] at hmember
      | some found =>
        obtain ⟨user, role⟩ := found
        obtain ⟨huser, stored, hstored, rfl⟩ := memberOf_eq_some hmember
        by_cases hlast : d.isLastAdmin r (normaliseRole stored) = true
        · simp only [hlast, if_true]
          refine iff_of_true h fun _ _ hcount => ?_
          simp only [isLastAdmin, Bool.and_eq_true, decide_eq_true_eq] at hlast
          omega
        · simp only [hlast, Bool.false_eq_true, if_false, Directory.after]
          by_cases hdeleted : (d.revoke userId r.tenantId).memberships userId = [] ∧
              d.keepsAccount r userId user = false
          · refine iff_of_true (h.removeFromTenant_of_deleted hdeleted.1 hdeleted.2) ?_
            intro _ _ _ _ _ user' huser'
            obtain rfl := Option.some.inj (huser.symm.trans huser')
            exact hdeleted
          · rw [removeFromTenant_of_kept hdeleted, h.revoke_iff]
            constructor
            · intro hkeeps _ _ _ htenant hadmin
              exact absurd hadmin (hkeeps htenant)
            · intro hkeeps htenant hadmin
              refine hdeleted (hkeeps trivial hself ?_ htenant hadmin user huser)
              obtain rfl : stored = "admin" :=
                Option.some.inj (hstored.symm.trans (htenant ▸ hadmin))
              have hnormal : normaliseRole "admin" = "admin" := by decide
              rw [hnormal] at hlast
              simpa [isLastAdmin] using hlast

/-! ### Runs -/

/-- **One operation** keeps the copies if and only if it meets the condition. -/
theorem mirrored_step_iff (h : d.Mirrored) (op : Operation) :
    (d.step P op).Mirrored ↔ d.Keeps op := by
  cases op with
  | grant userId tenantId role =>
    refine iff_of_true ?_ trivial
    cases huser : d.users userId with
    | none => exact h.grant_of_none huser tenantId role
    | some user => exact h.grant (by simp [huser]) tenantId role
  | revoke userId tenantId => exact h.revoke_iff userId tenantId
  | syncFromUsersRole tenantId => exact h.syncFromUsersRole_iff tenantId
  | backfillMemberships tenantId => exact h.backfillMemberships_iff tenantId
  | createUserApi r username password role => exact iff_of_true (h.createUserApi r _ _ _) trivial
  | addUser r username password role => exact iff_of_true (h.addUser r _ _ _) trivial
  | updateUserApi r userId role password currentPassword =>
    exact iff_of_true (h.updateUserApi r userId _ _ _) trivial
  | updateRole r userId role => exact iff_of_true (h.updateRole r userId role) trivial
  | deleteUserApi r userId | deleteUser r userId => exact h.deleteMember_iff r userId _ _

/-- **Every run** of operations that meet the condition keeps the copies. -/
theorem mirrored_run {l : List Operation} {d' : Directory} (h : d.Mirrored)
    (hrun : Run (Guarded Keeps (Step P)) d l d') : d'.Mirrored :=
  hrun.invariant (fun _ op _ h hstep => hstep.2 ▸ (mirrored_step_iff h op).mpr hstep.1) h

/-! ### Samples -/

def samplePasswords : Passwords := ⟨fun _ => none, id, fun p hash => p = hash⟩

/-- User 1 is an admin of the default tenant, user 2 of it and an editor in tenant 2. -/
def sampleDirectory : Directory where
  ids := [1, 2]
  nextId := 3
  users u :=
    if u = 1 then some ⟨"root", "", some "admin", none, true⟩
    else if u = 2 then some ⟨"anna", "", some "admin", none, true⟩
    else none
  memberships u :=
    if u = 1 then [(1, "admin")] else if u = 2 then [(1, "admin"), (2, "editor")] else []
  providerMember _ := false
  nodup := by decide
  lt_nextId := by decide
  mem_ids := by
    intro u hu
    split_ifs at hu with h₁ h₂
    · simp [h₁]
    · simp [h₂]
    · cases hu
  member := by
    intro u hu
    split_ifs at hu ⊢
    · rfl
    · rfl
    · exact absurd rfl hu

/-- A request of user 1 in the default tenant. -/
def sampleRequest : Request := ⟨some 1, 1, true, false, true⟩

theorem mirrored_sampleDirectory : sampleDirectory.Mirrored := by
  intro u row hrow
  by_cases h₁ : u = 1
  · subst h₁
    obtain rfl : _ = row := Option.some.inj hrow
    exact ⟨by decide, by rintro role ⟨⟩; rfl⟩
  · by_cases h₂ : u = 2
    · subst h₂
      obtain rfl : _ = row := Option.some.inj hrow
      exact ⟨by decide, by rintro role ⟨⟩; rfl⟩
    · simp [sampleDirectory, h₁, h₂] at hrow

/-- An admin who is demoted first, and then removed, is no operator. -/
theorem mirrored_run_demotion :
    ((sampleDirectory.step samplePasswords (.updateRole sampleRequest 2 "editor")).step
      samplePasswords (.deleteUserApi sampleRequest 2)).Mirrored := by
  refine mirrored_run (P := samplePasswords) (l := [.updateRole sampleRequest 2 "editor",
    .deleteUserApi sampleRequest 2]) mirrored_sampleDirectory (.cons ⟨trivial, rfl⟩ (.single ⟨?_, rfl⟩))
  intro _ _ _ _ hadmin
  exact absurd hadmin (by decide)

/-- An admin who is removed from the default tenant, and belongs to another one, stays an
operator. -/
theorem operator_after_removal :
    ¬∀ (P : Passwords) (d : Directory) (l : List Operation) (d' : Directory), d.Mirrored →
      Run (Step P) d l d' → d'.Mirrored := by
  intro hall
  have hafter := hall samplePasswords sampleDirectory [.deleteUserApi sampleRequest 2] _
    mirrored_sampleDirectory (.single rfl)
  have hagrees := hafter 2 ⟨"anna", "", some "admin", none, true⟩ (by decide)
  exact absurd (hagrees.1.mp rfl) (by decide)

end Directory

end Nodeglow.Users
