import Mathlib.Algebra.Order.Field.Rat
import Nodeglow.Foundation.Run

/-!
# Resolving a user's access

A connection has a session cookie. The session names a user, and the user has access to tenants: by
memberships, and with the enterprise backend also by support grants. The tenant of a connection is
the one it asks for, else the active one of its session, else the only one its user has access to.

What is loaded on the way is kept: the memberships and the session's tenant, and by the enterprise
backend the accesses, on the state object of the connection; the active grants of all tenants in the
process, for a few seconds. A long-lived connection is checked again from time to time
(`World.revalidateAccess`).

Databases, clocks and connections change in any order (`World.step`). To say how old the grants in
use may be, a world also has its moments since this process last changed a grant or a tenant.

Source: `backend/services/tenancy.py`, lines 214–329 and 455–475;
`backend/services/memberships.py`, lines 22–39; `backend/models/settings.py`, lines 63–92;
`ee/backend/nodeglow_ee/tenancy/backend.py`, lines 79–132;
`ee/backend/nodeglow_ee/tenancy/support.py`, lines 93–159; `backend/main.py`, lines 519–568.
-/

namespace Nodeglow.Tenancy.Access

/-! ### Dictionaries -/

/-- A dictionary by tenant, in the order of insertion. -/
abbrev Dict (β : Type) := List (ℤ × β)

/-- Insert a value; a key that is there keeps its place. -/
def Dict.insert {β : Type} (d : Dict β) (key : ℤ) (v : β) : Dict β :=
  if (d.lookup key).isSome then d.map fun p => if p.1 = key then (key, v) else p
  else d ++ [(key, v)]

/-! ### The database -/

/-- How an access was granted. -/
inductive Via
  | membership
  | support
  deriving DecidableEq, Repr

/-- A user's access to one tenant. -/
structure TenantAccess where
  tenantId : ℤ
  role : String
  via : Via
  deriving DecidableEq, Repr

structure User where
  id : ℤ
  isOperator : Bool
  deriving DecidableEq, Repr

structure SessionRow where
  userId : ℤ
  expiresAt : ℚ
  activeTenantId : Option ℤ
  deriving DecidableEq, Repr

structure TenantRow where
  /-- The status is `active`. -/
  active : Bool
  providerId : ℤ
  deriving DecidableEq, Repr

structure MembershipRow where
  userId : ℤ
  tenantId : ℤ
  role : String
  deriving DecidableEq, Repr

structure GrantRow where
  id : ℤ
  tenantId : ℤ
  role : String
  expiresAt : ℚ
  revoked : Bool
  deriving DecidableEq, Repr

/-- What the resolution reads of the database. -/
structure Database where
  /-- By the hash of the token. -/
  sessions : String → Option SessionRow
  users : ℤ → Option User
  tenants : ℤ → Option TenantRow
  memberships : List MembershipRow
  /-- The users of providers. -/
  providerMember : ℤ → ℤ → Bool
  /-- By their id. -/
  grants : List GrantRow

/-- A grant in the cache, with its tenant's provider. -/
structure ActiveGrant where
  id : ℤ
  tenantId : ℤ
  role : String
  expiresAt : ℚ
  providerId : ℤ
  deriving DecidableEq, Repr

/-- `VALID_ROLES`, and `ROLES` of support grants. -/
def validRoles : List String := ["admin", "editor", "readonly"]

/-- `normalise_role`. -/
def normaliseRole (role : String) : String := if role ∈ validRoles then role else "readonly"

namespace Database

variable (db : Database)

def tenantIsActive (tenantId : ℤ) : Bool := (db.tenants tenantId).any fun t => t.active

/-- `memberships_for`. -/
def membershipsFor (userId : ℤ) : Dict String :=
  (db.memberships.filter fun m => m.userId = userId && db.tenantIsActive m.tenantId).foldl
    (fun d m => Dict.insert d m.tenantId (normaliseRole m.role)) []

/-- The query of `_active_grants`. -/
def activeGrants (utc : ℚ) : List ActiveGrant :=
  db.grants.filterMap fun g =>
    match db.tenants g.tenantId with
    | some t =>
        if !g.revoked ∧ utc < g.expiresAt ∧ t.active then
          some ⟨g.id, g.tenantId, g.role, g.expiresAt, t.providerId⟩
        else none
    | none => none

/-- A session that has not expired. -/
def liveSession (utc : ℚ) (token : String) : Option SessionRow :=
  (db.sessions token).filter fun s => utc < s.expiresAt

end Database

/-- `support_access_for`, of the active grants: the last grant for a tenant counts. -/
def supportAccessFor (db : Database) (utc : ℚ) (user : User) (grants : List ActiveGrant) :
    Dict (ℤ × String) :=
  let grants := grants.filter fun g => utc < g.expiresAt
  let grants :=
    if user.isOperator then grants
    else grants.filter fun g => db.providerMember user.id g.providerId
  grants.foldl (fun d g => Dict.insert d g.tenantId (g.id, normaliseRole g.role)) []

/-- The accesses of memberships. -/
def ofMemberships (memberships : Dict String) : Dict TenantAccess :=
  memberships.map fun p => (p.1, ⟨p.1, p.2, .membership⟩)

/-- The accesses of memberships and grants; a membership always wins. -/
def withSupport (memberships : Dict String) (grants : Dict (ℤ × String)) : Dict TenantAccess :=
  grants.foldl
    (fun out p =>
      if (out.lookup p.1).isSome then out else Dict.insert out p.1 ⟨p.1, p.2.2, .support⟩)
    (ofMemberships memberships)

/-- The access of the tenant that is asked for, else of the session's, else the only one. -/
def chooseAccess (requested active : Option ℤ) (accesses : Dict TenantAccess) :
    Option TenantAccess :=
  match requested <|> active with
  | some tenantId => accesses.lookup tenantId
  | none =>
      match accesses with
      | [(_, access)] => some access
      | _ => none

/-! ### Connections -/

inductive Backend
  | core
  | enterprise
  deriving DecidableEq, Repr

/-- The installation. -/
structure Setup where
  backend : Backend
  hashToken : String → String
  hashTokenLegacy : String → String

/-- A connection with its state object. -/
structure Conn where
  /-- The cookie `nodeglow_session`. -/
  cookie : Option String
  /-- The value of `requested_tenant`: the header or the query parameter of the connection. -/
  requested : Option ℤ
  /-- `session_active_tenant_id`. -/
  activeTenantId : Option ℤ
  /-- `_tenancy_memberships`, with the user they are of. -/
  memberships : Option (ℤ × Dict String)
  /-- `_ee_tenancy_access`, with the user they are of. -/
  accesses : Option (ℤ × Dict TenantAccess)
  deriving DecidableEq, Repr

/-- A moment in the life of the database. -/
structure Moment where
  utc : ℚ
  monotonic : ℚ
  db : Database

/-- `GRANT_CACHE_SECONDS`. -/
def grantCacheSeconds : ℚ := 5

structure World where
  utc : ℚ
  monotonic : ℚ
  db : Database
  /-- `_active_cache`, with the time it was loaded at. -/
  activeCache : Option (ℚ × List ActiveGrant)
  conn : Conn
  /-- The moments since this process last changed a grant or a tenant. -/
  moments : List Moment

namespace World

variable (S : Setup) (w : World)

/-- The present moment. -/
def now : Moment := ⟨w.utc, w.monotonic, w.db⟩

/-- A new connection. -/
def init (db : Database) (cookie : Option String) (requested : Option ℤ) : World where
  utc := 0
  monotonic := 0
  db := db
  activeCache := none
  conn := ⟨cookie, requested, none, none, none⟩
  moments := [⟨0, 0, db⟩]

/-- A session is found: the state object gets its tenant. -/
def withSession (s : SessionRow) : World × Option User :=
  ({ w with conn := { w.conn with activeTenantId := s.activeTenantId } }, w.db.users s.userId)

/-- The hash of a token is renewed. -/
def migrateToken (old new : String) (s : SessionRow) : World :=
  { w with
    db := { w.db with
      sessions := Function.update (Function.update w.db.sessions old none) new (some s) } }

/-- `get_current_user`. -/
def getCurrentUser : World × Option User :=
  match w.conn.cookie with
  | none => (w, none)
  | some token =>
      if token = "" then (w, none)
      else
        match w.db.liveSession w.utc (S.hashToken token) with
        | some s => w.withSession s
        | none =>
            match w.db.liveSession w.utc (S.hashTokenLegacy token) with
            | some s =>
                (w.migrateToken (S.hashTokenLegacy token) (S.hashToken token) s).withSession s
            | none => (w, none)

/-- `_user_memberships`. -/
def userMemberships (user : User) : World × Dict String :=
  match w.conn.memberships with
  | some (userId, found) =>
      if userId = user.id then (w, found)
      else
        let found := w.db.membershipsFor user.id
        ({ w with conn := { w.conn with memberships := some (user.id, found) } }, found)
  | none =>
      let found := w.db.membershipsFor user.id
      ({ w with conn := { w.conn with memberships := some (user.id, found) } }, found)

/-- `_active_grants`. -/
def activeGrants : World × List ActiveGrant :=
  match w.activeCache with
  | some (loadedAt, grants) =>
      if w.monotonic - loadedAt < grantCacheSeconds then (w, grants)
      else
        let grants := w.db.activeGrants w.utc
        ({ w with activeCache := some (w.monotonic, grants) }, grants)
  | none =>
      let grants := w.db.activeGrants w.utc
      ({ w with activeCache := some (w.monotonic, grants) }, grants)

/-- `_load_accesses`. -/
def loadAccesses (user : User) : World × Dict TenantAccess :=
  let m := w.userMemberships user
  let g := m.1.activeGrants
  (g.1, withSupport m.2 (supportAccessFor g.1.db g.1.utc user g.2))

/-- `_accesses`. -/
def accesses (user : User) : World × Dict TenantAccess :=
  match w.conn.accesses with
  | some (userId, out) =>
      if userId = user.id then (w, out)
      else
        let r := w.loadAccesses user
        ({ r.1 with conn := { r.1.conn with accesses := some (user.id, r.2) } }, r.2)
  | none =>
      let r := w.loadAccesses user
      ({ r.1 with conn := { r.1.conn with accesses := some (user.id, r.2) } }, r.2)

/-- `resolve_access` of the backend. -/
def resolveAccess (user : User) : World × Option TenantAccess :=
  match S.backend with
  | .core =>
      let r := w.userMemberships user
      (r.1, chooseAccess r.1.conn.requested r.1.conn.activeTenantId (ofMemberships r.2))
  | .enterprise =>
      let r := w.accesses user
      (r.1, chooseAccess r.1.conn.requested r.1.conn.activeTenantId r.2)

/-- The first resolution of a connection, and any other that is not a revalidation. -/
def resolve : World × Option TenantAccess :=
  match w.getCurrentUser S with
  | (w, none) => (w, none)
  | (w, some user) => w.resolveAccess S user

/-- `revalidate_access` forgets the memberships and the session's tenant first. -/
def forget : World :=
  { w with conn := { w.conn with memberships := none, activeTenantId := none } }

/-- `revalidate_access`. -/
def revalidateAccess (tenantId : ℤ) : World × Option TenantAccess :=
  let r := w.forget.resolve S
  (r.1, r.2.filter fun access => access.tenantId = tenantId)

end World

/-- What can happen. -/
inductive Event
  /-- Time passes. -/
  | elapse (utc monotonic : ℚ)
  /-- The database changes. A change of a grant or of a tenant that this process makes is followed
  by `invalidate_grants`; other changes, and those of other processes, are not. -/
  | change (db : Database) (invalidates : Bool)
  | resolve
  | revalidate (tenantId : ℤ)

namespace World

variable (S : Setup) (w : World)

/-- One event; it has no value where the event cannot happen. -/
def step : Event → Option World
  | .elapse utc monotonic =>
      if 0 ≤ monotonic then
        let w := { w with utc := w.utc + utc, monotonic := w.monotonic + monotonic }
        some { w with moments := w.now :: w.moments }
      else none
  | .change db invalidates =>
      let w := { w with db := db }
      some (if invalidates then { w with activeCache := none, moments := [w.now] }
        else { w with moments := w.now :: w.moments })
  | .resolve => some (w.resolve S).1
  | .revalidate tenantId => some (w.revalidateAccess S tenantId).1

/-- The transition relation of `World.step`. -/
def Step (w : World) (e : Event) (w' : World) : Prop := w.step S e = some w'

end World

end Nodeglow.Tenancy.Access
