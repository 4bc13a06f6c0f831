import Nodeglow.Backend.Users.Directory
import Nodeglow.Foundation.Fallible

/-!
# Changing one's own password

Three routes set the password of a user. Two of them ask for the current one where users set their
own: else a session that was taken over would be enough to take over the account. The third, by
which an admin resets the password of a member, does not ask, and does not refuse the admin's own
account.

Requests come one after the other; each sees the users as the one before has left them. What the
rate limit of these routes refuses changes nothing and is not part of this file.

## Main results

* `changesOnlyWithCurrent_iff` — one request.
* `needsCurrent_iff` — exactly the resets of one's own password are in the way.
* `not_needsCurrent` — an admin without the current password.

Source: `backend/routers/users.py`, lines 82–116, 206–284 and 344–366.
-/

namespace Nodeglow.Users

open Fallible

/-! ### The routes -/

namespace Directory

variable (P : Passwords) (d : Directory) (r : Request)

def setPassword (userId : ℤ) (password : String) : Directory :=
  d.mapUsers fun u row =>
    if u = userId then { row with passwordHash := P.hash password } else row

/-- `change_own_password`; a request without a user is sent to the login. -/
def changeOwnPassword (password currentPassword : String) : Except String Directory :=
  match r.currentId with
  | none => .error "/login"
  | some userId =>
      match d.users userId with
      | none => .error "Current password is incorrect"
      | some user =>
          if !verifyPassword P user (some currentPassword) then
            .error "Current password is incorrect"
          else
            match P.error password with
            | some error => .error error
            | none => .ok (d.setPassword P userId password)

/-- `reset_password`. -/
def resetPassword (userId : ℤ) (password : String) : Except String Directory :=
  match r.refuseChange with
  | some error => .error error
  | none =>
      match P.error password with
      | some error => .error error
      | none =>
          match d.memberOf r userId with
          | none => .error "User not found"
          | some (user, _) =>
              if r.currentId ≠ some userId ∧ !d.maySetCredentials r userId user then
                .error foreignIdentity
              else .ok (d.setPassword P userId password)

end Directory

/-- A request to one of the routes. -/
inductive PasswordRequest
  /-- `PATCH /api/users/{id}`. -/
  | updateUser (userId : ℤ) (role password currentPassword : Option String)
  /-- `POST /users/me/password`. -/
  | changeOwn (password currentPassword : String)
  /-- `POST /users/{id}/password`. -/
  | reset (userId : ℤ) (password : String)
  deriving DecidableEq, Repr

/-- The current password that a request carries. -/
def PasswordRequest.currentPassword : PasswordRequest → Option String
  | updateUser _ _ _ currentPassword => currentPassword
  | changeOwn _ currentPassword => some currentPassword
  | reset _ _ => none

namespace Directory

variable (P : Passwords) (d : Directory) (r : Request)

/-- The answer to a request. -/
def answer : PasswordRequest → Except String Directory
  | .updateUser userId role password currentPassword =>
      d.updateUserApi P r userId role password currentPassword
  | .changeOwn password currentPassword => d.changeOwnPassword P r password currentPassword
  | .reset userId password => d.resetPassword P r userId password

/-- The users after a request; one that is refused changes nothing. -/
def handle (request : PasswordRequest) : Directory :=
  match d.answer P r request with
  | .ok changed => changed
  | .error _ => d

def passwordHash (userId : ℤ) : Option String := (d.users userId).map UserRow.passwordHash

end Directory

/-! ### What a route does to a password -/

section Hashes

variable {P : Passwords} {d d' : Directory} {r : Request} {userId u : ℤ} {user : UserRow}

theorem passwordHash_setPassword (password : String) :
    (d.setPassword P userId password).passwordHash u =
      if u = userId then (d.users u).map fun _ => P.hash password else d.passwordHash u := by
  rw [Directory.passwordHash, Directory.setPassword, Directory.users_mapUsers, Option.map_map]
  split
  · rename_i heq
    simp [heq, Function.comp_def]
  · simp [Function.comp_def, Directory.passwordHash]

theorem passwordHash_grant (tenantId : ℤ) (role : String) :
    (d.grant userId tenantId role).passwordHash u = d.passwordHash u := by
  unfold Directory.grant Directory.mirrorRole
  split
  · rw [Directory.passwordHash, Directory.users_mapUsers, Directory.users_putMembership,
      Option.map_map, Directory.passwordHash]
    refine congrArg (fun f => (d.users u).map f) (funext fun row => ?_)
    dsimp only [Function.comp_apply]
    split <;> rfl
  · rw [Directory.passwordHash, Directory.users_putMembership, Directory.passwordHash]

theorem passwordHash_updateUserRole {current : String} {role : Option String}
    (h : d.updateUserRole r userId current role = .ok d') :
    d'.passwordHash u = d.passwordHash u := by
  unfold Directory.updateUserRole at h
  split at h
  · rw [Except.ok.inj h]
  · split at h
    · cases h
    · split at h
      · cases h
      · rw [← Except.ok.inj h, passwordHash_grant]

theorem passwordHash_updateUserPassword {password currentPassword : Option String}
    (h : d.updateUserPassword P r userId user currentPassword password = .ok d')
    (hchanged : d'.passwordHash u ≠ d.passwordHash u) :
    u = userId ∧
      (r.currentId = some userId → Directory.verifyPassword P user currentPassword = true) := by
  unfold Directory.updateUserPassword at h
  split at h
  · exact absurd (by rw [Except.ok.inj h]) hchanged
  · rename_i password
    split at h
    · exact absurd (by rw [Except.ok.inj h]) hchanged
    · split at h
      · cases h
      · rename_i hverified
        split at h
        · cases h
        · rw [← Except.ok.inj h] at hchanged
          have hset : (d.setPassword P userId password).passwordHash u ≠ d.passwordHash u :=
            hchanged
          rw [passwordHash_setPassword] at hset
          by_cases hu : u = userId
          · refine ⟨hu, fun hown => ?_⟩
            simpa [hown] using hverified
          · rw [if_neg hu] at hset
            exact absurd rfl hset

theorem memberOf_eq_some {role : String} (h : d.memberOf r userId = some (user, role)) :
    d.users userId = some user := by
  unfold Directory.memberOf at h
  split at h
  · rename_i user' role' huser hrole
    rw [huser, (Prod.mk.inj (Option.some.inj h)).1]
  · cases h

/-- `PATCH /api/users/{id}` changes one's own password with the current one only. -/
theorem verified_of_updateUserApi {role password currentPassword : Option String}
    (h : d.updateUserApi P r userId role password currentPassword = .ok d')
    (hown : r.currentId = some u) (huser : d.users u = some user)
    (hchanged : d'.passwordHash u ≠ d.passwordHash u) :
    Directory.verifyPassword P user currentPassword = true := by
  unfold Directory.updateUserApi at h
  split at h
  · cases h
  · split at h
    · cases h
    · rename_i user' current hmember
      split at h
      · cases h
      · obtain ⟨changed, hrole, hpassword⟩ := bind_eq_ok.mp h
        rw [← passwordHash_updateUserRole (u := u) hrole] at hchanged
        obtain ⟨rfl, hverified⟩ := passwordHash_updateUserPassword hpassword hchanged
        rw [memberOf_eq_some hmember] at huser
        rw [← Option.some.inj huser]
        exact hverified hown

/-- `POST /users/me/password` changes a password with the current one only. -/
theorem verified_of_changeOwnPassword {password currentPassword : String}
    (h : d.changeOwnPassword P r password currentPassword = .ok d')
    (hown : r.currentId = some u) (huser : d.users u = some user) :
    Directory.verifyPassword P user (some currentPassword) = true := by
  unfold Directory.changeOwnPassword at h
  rw [hown] at h
  dsimp only at h
  rw [huser] at h
  dsimp only at h
  split at h
  · cases h
  · rename_i hverified
    simpa using hverified

end Hashes

/-! ### One's own password -/

section Main

variable (P : Passwords) (d : Directory)

/-- Where a request changes the password of the user who makes it, it carries the one that is valid
then. -/
def ChangesOnlyWithCurrent (r : Request) (request : PasswordRequest) : Prop :=
  ∀ userId user, r.currentId = some userId → d.users userId = some user →
    (d.handle P r request).passwordHash userId ≠ some user.passwordHash →
      Directory.verifyPassword P user request.currentPassword = true

/-- No request of a sequence changes one's own password without the current one. -/
def NeedsCurrent : Directory → List (Request × PasswordRequest) → Prop
  | _, [] => True
  | d, q :: requests =>
      ChangesOnlyWithCurrent P d q.1 q.2 ∧ NeedsCurrent (d.handle P q.1 q.2) requests

/-- An admin, who is a member of the tenant and not there through support access, resets the own
password to another one that is valid. -/
def ResetsOwn (r : Request) (request : PasswordRequest) : Prop :=
  ∃ userId password user role, request = .reset userId password ∧ r.currentId = some userId ∧
    r.refuseChange = none ∧ P.error password = none ∧ d.memberOf r userId = some (user, role) ∧
      P.hash password ≠ user.passwordHash

def NoneResetsOwn : Directory → List (Request × PasswordRequest) → Prop
  | _, [] => True
  | d, q :: requests => ¬ResetsOwn P d q.1 q.2 ∧ NoneResetsOwn (d.handle P q.1 q.2) requests

variable {P d}

/-- What a reset does. -/
theorem resetPassword_eq_ok {d' : Directory} {r : Request} {userId : ℤ} {password : String}
    (h : d.resetPassword P r userId password = .ok d') :
    d' = d.setPassword P userId password ∧ r.refuseChange = none ∧ P.error password = none ∧
      ∃ user role, d.memberOf r userId = some (user, role) := by
  unfold Directory.resetPassword at h
  split at h
  · cases h
  · rename_i hallowed
    split at h
    · cases h
    · rename_i hvalid
      split at h
      · cases h
      · rename_i user role hmember
        split at h
        · cases h
        · exact ⟨(Except.ok.inj h).symm, hallowed, hvalid, user, role, hmember⟩

/-- An admin's own password is reset. -/
theorem resetPassword_own {r : Request} {userId : ℤ} {password role : String} {user : UserRow}
    (hown : r.currentId = some userId) (hallowed : r.refuseChange = none)
    (hvalid : P.error password = none) (hmember : d.memberOf r userId = some (user, role)) :
    d.resetPassword P r userId password = .ok (d.setPassword P userId password) := by
  simp [Directory.resetPassword, hallowed, hvalid, hmember, hown]

theorem passwordHash_of_users {userId : ℤ} {user : UserRow} (huser : d.users userId = some user) :
    d.passwordHash userId = some user.passwordHash := by
  rw [Directory.passwordHash, huser, Option.map_some]

theorem handle_of_ok {d' : Directory} {r : Request} {request : PasswordRequest}
    (h : d.answer P r request = .ok d') : d.handle P r request = d' := by
  rw [Directory.handle, h]

/-- **One request.** -/
theorem changesOnlyWithCurrent_iff (r : Request) (request : PasswordRequest) :
    ChangesOnlyWithCurrent P d r request ↔ ¬ResetsOwn P d r request := by
  constructor
  · rintro hcurrent ⟨userId, password, user, role, rfl, hown, hallowed, hvalid, hmember, hne⟩
    have huser := memberOf_eq_some hmember
    have hok : d.answer P r (.reset userId password) = .ok (d.setPassword P userId password) :=
      resetPassword_own hown hallowed hvalid hmember
    have hafter : (d.handle P r (.reset userId password)).passwordHash userId =
        some (P.hash password) := by
      rw [handle_of_ok hok, passwordHash_setPassword, if_pos rfl, huser, Option.map_some]
    have hverified := hcurrent userId user hown huser
      (by rw [hafter]; exact fun heq => hne (Option.some.inj heq))
    cases hverified
  · intro hnone userId user hown huser hchanged
    cases hanswer : d.answer P r request with
    | error e =>
      rw [Directory.handle, hanswer] at hchanged
      exact absurd (passwordHash_of_users huser) hchanged
    | ok d' =>
      rw [handle_of_ok hanswer] at hchanged
      cases request with
      | updateUser target role password currentPassword =>
        rw [← passwordHash_of_users huser] at hchanged
        exact verified_of_updateUserApi hanswer hown huser hchanged
      | changeOwn password currentPassword =>
        exact verified_of_changeOwnPassword hanswer hown huser
      | reset target password =>
        obtain ⟨rfl, hallowed, hvalid, user', role, hmember⟩ := resetPassword_eq_ok hanswer
        rw [passwordHash_setPassword] at hchanged
        by_cases htarget : userId = target
        · subst htarget
          rw [if_pos rfl, huser, Option.map_some] at hchanged
          rw [memberOf_eq_some hmember] at huser
          obtain rfl := Option.some.inj huser
          exact absurd ⟨userId, password, user', role, rfl, hown, hallowed, hvalid, hmember,
            fun heq => hchanged (congrArg some heq)⟩ hnone
        · rw [if_neg htarget] at hchanged
          exact absurd (passwordHash_of_users huser) hchanged

/-- **When one's own password needs the current one.** -/
theorem needsCurrent_iff (requests : List (Request × PasswordRequest)) :
    NeedsCurrent P d requests ↔ NoneResetsOwn P d requests := by
  induction requests generalizing d with
  | nil => exact Iff.rfl
  | cons q requests ih => exact and_congr (changesOnlyWithCurrent_iff q.1 q.2) ih

end Main

/-! ### An admin without the current password -/

def plainPasswords : Passwords := ⟨fun _ => none, id, fun p hash => p = hash⟩

/-- A directory with one user, the admin of tenant 1. -/
def adminDirectory : Directory where
  ids := [1]
  nextId := 2
  users u := if u = 1 then some ⟨"ada", "old", some "admin", some "local", true⟩ else none
  memberships u := if u = 1 then [(1, "admin")] else []
  providerMember _ := false
  nodup := by decide
  lt_nextId := by decide
  mem_ids u hu := by
    by_cases h : u = 1
    · simp [h]
    · simp [h] at hu
  member u hu := by
    by_cases h : u = 1
    · simp [h]
    · simp [h] at hu

/-- **The session of an admin is enough** to take over the account. -/
theorem not_needsCurrent :
    ¬NeedsCurrent plainPasswords adminDirectory
      [(⟨some 1, 1, true, false, true⟩, .reset 1 "new")] := by
  rintro ⟨hcurrent, -⟩
  have hchanged : (adminDirectory.handle plainPasswords ⟨some 1, 1, true, false, true⟩
      (.reset 1 "new")).passwordHash 1 = some "new" := by
    decide +kernel
  have hverified := hcurrent 1 ⟨"ada", "old", some "admin", some "local", true⟩ rfl rfl
    (by rw [hchanged]; decide)
  cases hverified

end Nodeglow.Users
