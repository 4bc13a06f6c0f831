import Mathlib.Tactic.NormNum
import Nodeglow.Backend.Tenancy.AccessResolution

/-!
# Revalidation of long-lived connections

What a revalidation should return is a function of the database of the moment, and of the support
grants of a moment that is less than `grantCacheSeconds` ago and not before the last change of a
grant or a tenant in this process (`World.freshAccess`).

A revalidation forgets the memberships and the session's tenant, but not the accesses that the
enterprise backend keeps on the connection. It returns the fresh access if those are not out of date
(`UpToDate`, `World.revalidateAccess_eq_freshAccess`): always with the core backend, and with the
enterprise backend on a connection that has resolved nothing yet. A connection that has keeps the
access of a membership that is gone (`World.revalidate_after_revocation`).

## Main results

* `World.Inv.step` — where the cached grants come from.

Source: `backend/services/tenancy.py`, lines 455–475;
`ee/backend/nodeglow_ee/tenancy/backend.py`, lines 82–132.
-/

namespace Nodeglow.Tenancy.Access

/-- The grants of a moment. -/
def Moment.grants (m : Moment) : List ActiveGrant := m.db.activeGrants m.utc

/-- The accesses of a user, with the grants of a moment. -/
def Database.accesses (db : Database) (backend : Backend) (utc : ℚ) (user : User) (m : Moment) :
    Dict TenantAccess :=
  match backend with
  | .core => ofMemberships (db.membershipsFor user.id)
  | .enterprise =>
      withSupport (db.membershipsFor user.id) (supportAccessFor db utc user m.grants)

namespace World

variable (S : Setup) (w : World)

/-- The session of the connection. -/
def session : Option SessionRow :=
  match w.conn.cookie with
  | none => none
  | some token =>
      if token = "" then none
      else
        match w.db.liveSession w.utc (S.hashToken token) with
        | some s => some s
        | none => w.db.liveSession w.utc (S.hashTokenLegacy token)

/-- **Resolving afresh** from the database, with nothing remembered on the connection. -/
def freshAccess (m : Moment) (tenantId : ℤ) : Option TenantAccess :=
  match w.session S with
  | none => none
  | some s =>
      match w.db.users s.userId with
      | none => none
      | some user =>
          (chooseAccess w.conn.requested s.activeTenantId
            (w.db.accesses S.backend w.utc user m)).filter fun access => access.tenantId = tenantId

/-- A moment whose grants may be in use. -/
def Recent (m : Moment) : Prop := m ∈ w.moments ∧ w.monotonic - m.monotonic < grantCacheSeconds

end World

/-- The accesses that the connection remembers for the user of its session, if any, are those that
the database gives. -/
def UpToDate (S : Setup) (w : World) : Prop :=
  S.backend = .enterprise → ∀ s user out, w.session S = some s → w.db.users s.userId = some user →
    w.conn.accesses = some (user.id, out) →
      ∃ m, w.Recent m ∧ out = w.db.accesses .enterprise w.utc user m

/-! ### Authentication -/

namespace World

variable {S : Setup} {w w' : World}

theorem getCurrentUser_of_none (h : w.session S = none) : w.getCurrentUser S = (w, none) := by
  unfold session at h
  unfold getCurrentUser
  split
  · rfl
  · next token hcookie =>
    simp only [hcookie] at h
    split_ifs at h ⊢ with hempty
    · rfl
    cases hhash : w.db.liveSession w.utc (S.hashToken token) with
    | some s =>
      rw [hhash] at h
      cases h
    | none =>
      rw [hhash] at h
      dsimp only at h ⊢
      rw [h]

/-- Authentication changes the session's tenant on the connection, and perhaps the hash of the
token. -/
theorem getCurrentUser_of_some {s : SessionRow} (h : w.session S = some s) :
    ∃ sessions, w.getCurrentUser S =
      ({ w with
        db := { w.db with sessions := sessions }
        conn := { w.conn with activeTenantId := s.activeTenantId } }, w.db.users s.userId) := by
  unfold session at h
  unfold getCurrentUser
  split
  · next hcookie => simp [hcookie] at h
  · next token hcookie =>
    simp only [hcookie] at h
    split_ifs at h ⊢ with hempty
    cases hhash : w.db.liveSession w.utc (S.hashToken token) with
    | some s' =>
      rw [hhash] at h
      obtain rfl := Option.some.inj h
      exact ⟨w.db.sessions, rfl⟩
    | none =>
      rw [hhash] at h
      dsimp only at h ⊢
      rw [h]
      exact ⟨_, rfl⟩

/-! ### Where the cached grants come from -/

/-- The cached grants are those of a moment, and the last moment has the grants and the tenants of
the database. -/
structure Inv (w : World) : Prop where
  cache : ∀ loadedAt grants, w.activeCache = some (loadedAt, grants) →
    ∃ m ∈ w.moments, m.monotonic = loadedAt ∧ grants = m.grants
  present : ∃ m ∈ w.moments, m.monotonic = w.monotonic ∧ m.grants = w.db.activeGrants w.utc

theorem inv_init (db : Database) (cookie : Option String) (requested : Option ℤ) :
    (init db cookie requested).Inv :=
  ⟨fun _ _ h => by simp [init] at h, _, List.mem_singleton_self _, rfl, rfl⟩

/-- A resolution: sessions, the connection and the cache may change, the latter by loading the
grants. -/
structure Resolved (w w' : World) : Prop where
  frame : ∃ sessions conn cache, w' =
    { w with db := { w.db with sessions := sessions }, conn := conn, activeCache := cache }
  cache : w'.activeCache = w.activeCache ∨
    w'.activeCache = some (w.monotonic, w.db.activeGrants w.utc)

theorem Resolved.refl (w : World) : Resolved w w :=
  ⟨⟨w.db.sessions, w.conn, w.activeCache, rfl⟩, Or.inl rfl⟩

theorem Resolved.trans {w₁ w₂ w₃ : World} (h : Resolved w₁ w₂) (h' : Resolved w₂ w₃) :
    Resolved w₁ w₃ := by
  obtain ⟨⟨sessions, conn, cache, rfl⟩, hcache⟩ := h
  obtain ⟨⟨sessions', conn', cache', rfl⟩, hcache'⟩ := h'
  refine ⟨⟨sessions', conn', cache', rfl⟩, ?_⟩
  rcases hcache' with hcache' | hcache'
  · exact hcache.imp hcache'.trans hcache'.trans
  · exact Or.inr hcache'

theorem Resolved.inv (h : Resolved w w') (hw : w.Inv) : w'.Inv := by
  obtain ⟨⟨sessions, conn, cache, rfl⟩, hcache⟩ := h
  refine ⟨fun loadedAt grants heq => ?_, hw.present⟩
  rcases hcache with hcache | hcache
  · exact hw.cache loadedAt grants (hcache.symm.trans heq)
  · obtain ⟨m, hm, hmono, hgrants⟩ := hw.present
    obtain ⟨rfl, rfl⟩ : w.monotonic = loadedAt ∧ w.db.activeGrants w.utc = grants := by
      simpa using hcache.symm.trans heq
    exact ⟨m, hm, hmono, hgrants.symm⟩

theorem resolved_getCurrentUser (S : Setup) (w : World) : Resolved w (w.getCurrentUser S).1 := by
  cases hsession : w.session S with
  | none =>
    rw [getCurrentUser_of_none hsession]
    exact .refl w
  | some s =>
    obtain ⟨sessions, heq⟩ := getCurrentUser_of_some hsession
    rw [heq]
    exact ⟨⟨sessions, _, w.activeCache, rfl⟩, Or.inl rfl⟩

theorem resolved_conn (w : World) (conn : Conn) : Resolved w { w with conn := conn } :=
  ⟨⟨w.db.sessions, conn, w.activeCache, rfl⟩, Or.inl rfl⟩

theorem userMemberships_frame (w : World) (user : User) :
    ∃ memberships, (w.userMemberships user).1 =
      { w with conn := { w.conn with memberships := memberships } } := by
  unfold userMemberships
  split
  · split_ifs
    · exact ⟨w.conn.memberships, rfl⟩
    · exact ⟨_, rfl⟩
  · exact ⟨_, rfl⟩

theorem resolved_userMemberships (w : World) (user : User) :
    Resolved w (w.userMemberships user).1 := by
  obtain ⟨memberships, heq⟩ := w.userMemberships_frame user
  exact heq ▸ w.resolved_conn _

theorem activeGrants_frame (w : World) :
    ∃ cache, w.activeGrants.1 = { w with activeCache := cache } := by
  unfold activeGrants
  split
  · split_ifs
    · exact ⟨w.activeCache, rfl⟩
    · exact ⟨_, rfl⟩
  · exact ⟨_, rfl⟩

theorem resolved_activeGrants (w : World) : Resolved w w.activeGrants.1 := by
  have hload : Resolved w
      { w with activeCache := some (w.monotonic, w.db.activeGrants w.utc) } :=
    ⟨⟨w.db.sessions, w.conn, _, rfl⟩, Or.inr rfl⟩
  unfold activeGrants
  split
  · split_ifs
    · exact .refl w
    · exact hload
  · exact hload

theorem resolved_loadAccesses (w : World) (user : User) : Resolved w (w.loadAccesses user).1 :=
  (w.resolved_userMemberships user).trans (resolved_activeGrants _)

theorem resolved_accesses (w : World) (user : User) : Resolved w (w.accesses user).1 := by
  have hload (conn : Conn) : Resolved w { (w.loadAccesses user).1 with conn := conn } :=
    (w.resolved_loadAccesses user).trans (resolved_conn _ conn)
  unfold accesses
  split
  · split_ifs
    · exact .refl w
    · exact hload _
  · exact hload _

theorem resolved_resolve (S : Setup) (w : World) : Resolved w (w.resolve S).1 := by
  have huser := resolved_getCurrentUser S w
  unfold resolve
  split
  · next w₁ heq =>
    rw [heq] at huser
    exact huser
  · next w₁ user heq =>
    rw [heq] at huser
    refine huser.trans ?_
    unfold resolveAccess
    split
    · exact w₁.resolved_userMemberships user
    · exact w₁.resolved_accesses user

/-- **One event.** -/
theorem Inv.step {e : Event} (h : w.Inv) (hstep : Step S w e w') : w'.Inv := by
  unfold Step World.step at hstep
  cases e with
  | elapse utc monotonic =>
    obtain ⟨-, rfl⟩ := made_of_guard hstep
    refine ⟨fun loadedAt grants heq => ?_, _, List.mem_cons_self, rfl, rfl⟩
    obtain ⟨m, hm, hgrants⟩ := h.cache loadedAt grants heq
    exact ⟨m, List.mem_cons_of_mem _ hm, hgrants⟩
  | change db invalidates =>
    obtain rfl := Option.some.inj hstep
    cases invalidates with
    | true => exact ⟨fun _ _ heq => by simp at heq, _, List.mem_singleton_self _, rfl, rfl⟩
    | false =>
      refine ⟨fun loadedAt grants heq => ?_, _, List.mem_cons_self, rfl, rfl⟩
      obtain ⟨m, hm, hgrants⟩ := h.cache loadedAt grants heq
      exact ⟨m, List.mem_cons_of_mem _ hm, hgrants⟩
  | resolve =>
    obtain rfl := Option.some.inj hstep
    exact (resolved_resolve S w).inv h
  | revalidate tenantId =>
    obtain rfl := Option.some.inj hstep
    exact ((w.resolved_conn _).trans (resolved_resolve S w.forget)).inv h

/-! ### Revalidation -/

theorem Inv.exists_recent (h : w.Inv) : ∃ m, w.Recent m := by
  obtain ⟨m, hm, hmono, -⟩ := h.present
  exact ⟨m, hm, by simp [hmono, grantCacheSeconds]⟩

/-- The grants in use are those of a recent moment. -/
theorem Inv.activeGrants (h : w.Inv) : ∃ m, w.Recent m ∧ w.activeGrants.2 = m.grants := by
  have hload : ∃ m, w.Recent m ∧ w.db.activeGrants w.utc = m.grants := by
    obtain ⟨m, hm, hmono, hgrants⟩ := h.present
    exact ⟨m, ⟨hm, by simp [hmono, grantCacheSeconds]⟩, hgrants.symm⟩
  unfold World.activeGrants
  split
  · next loadedAt grants heq =>
    split_ifs with hage
    · obtain ⟨m, hm, rfl, hgrants⟩ := h.cache loadedAt grants heq
      exact ⟨m, ⟨hm, hage⟩, hgrants⟩
    · exact hload
  · exact hload

/-- The accesses that the enterprise backend loads on a connection that remembers no memberships. -/
theorem Inv.loadAccesses (h : w.Inv) (hforgot : w.conn.memberships = none) (user : User) :
    ∃ m, w.Recent m ∧ (w.loadAccesses user).2 = w.db.accesses .enterprise w.utc user m := by
  have hfound : (w.userMemberships user).2 = w.db.membershipsFor user.id := by
    simp [userMemberships, hforgot]
  obtain ⟨memberships, hframe⟩ := w.userMemberships_frame user
  have hinv : (w.userMemberships user).1.Inv := (w.resolved_userMemberships user).inv h
  obtain ⟨m, hm, hgrants⟩ := hinv.activeGrants
  obtain ⟨cache, hcache⟩ := (w.userMemberships user).1.activeGrants_frame
  refine ⟨m, ?_, ?_⟩
  · rw [hframe] at hm
    exact hm
  · have hdb : (w.userMemberships user).1.activeGrants.1.db = w.db := by
      rw [hcache]
      change (w.userMemberships user).1.db = w.db
      rw [hframe]
    have hutc : (w.userMemberships user).1.activeGrants.1.utc = w.utc := by
      rw [hcache]
      change (w.userMemberships user).1.utc = w.utc
      rw [hframe]
    simp only [World.loadAccesses, hfound, hgrants, hdb, hutc]
    rfl

theorem conn_loadAccesses (w : World) (user : User) :
    ∃ memberships, (w.loadAccesses user).1.conn = { w.conn with memberships := memberships } := by
  obtain ⟨memberships, hframe⟩ := w.userMemberships_frame user
  obtain ⟨cache, hcache⟩ := (w.userMemberships user).1.activeGrants_frame
  exact ⟨memberships, (congrArg World.conn hcache).trans (congrArg World.conn hframe)⟩

/-- The choice of the enterprise backend, among the remembered accesses or those it loads. -/
theorem Inv.resolveAccess_enterprise (h : w.Inv) (hforgot : w.conn.memberships = none)
    (hbackend : S.backend = .enterprise) (user : User)
    (hcurrent : ∀ out, w.conn.accesses = some (user.id, out) →
      ∃ m, w.Recent m ∧ out = w.db.accesses .enterprise w.utc user m) :
    ∃ m, w.Recent m ∧ (w.resolveAccess S user).2 =
      chooseAccess w.conn.requested w.conn.activeTenantId
        (w.db.accesses .enterprise w.utc user m) := by
  obtain ⟨m, hm, hload⟩ := h.loadAccesses hforgot user
  obtain ⟨memberships, hconn⟩ := w.conn_loadAccesses user
  have hloaded (heq : w.accesses user =
      ({ (w.loadAccesses user).1 with
        conn := { (w.loadAccesses user).1.conn with
          accesses := some (user.id, (w.loadAccesses user).2) } }, (w.loadAccesses user).2)) :
      ∃ m, w.Recent m ∧ (w.resolveAccess S user).2 =
        chooseAccess w.conn.requested w.conn.activeTenantId
          (w.db.accesses .enterprise w.utc user m) := by
    refine ⟨m, hm, ?_⟩
    simp only [World.resolveAccess, hbackend, heq, hload, hconn]
  cases haccesses : w.conn.accesses with
  | none => exact hloaded (by simp only [accesses, haccesses])
  | some remembered =>
    obtain ⟨userId, out⟩ := remembered
    by_cases huser : userId = user.id
    · subst huser
      obtain ⟨m, hm, hout⟩ := hcurrent out haccesses
      refine ⟨m, hm, ?_⟩
      simp only [World.resolveAccess, hbackend, accesses, haccesses, if_true, ← hout]
    · exact hloaded (by simp only [accesses, haccesses, huser, if_false])

/-- The choice of the core backend. -/
theorem resolveAccess_core (hforgot : w.conn.memberships = none) (hbackend : S.backend = .core)
    (user : User) :
    (w.resolveAccess S user).2 =
      chooseAccess w.conn.requested w.conn.activeTenantId
        (ofMemberships (w.db.membershipsFor user.id)) := by
  simp only [resolveAccess, hbackend, userMemberships, hforgot]

/-- The world of a revalidation that has found a session. -/
def authenticated (w : World) (s : SessionRow) (sessions : String → Option SessionRow) : World :=
  { w with
    db := { w.db with sessions := sessions }
    conn := { w.conn with memberships := none, activeTenantId := s.activeTenantId } }

/-- **Revalidation is fresh** in every run, if the accesses that the connection remembers are not
out of date. -/
theorem revalidateAccess_eq_freshAccess {db : Database} {cookie : Option String}
    {requested : Option ℤ} {l : List Event} (hrun : Run (Step S) (init db cookie requested) l w)
    (hcurrent : UpToDate S w) (tenantId : ℤ) :
    ∃ m, w.Recent m ∧ (w.revalidateAccess S tenantId).2 = w.freshAccess S m tenantId := by
  have hinv : w.Inv :=
    hrun.invariant (fun _ _ _ h hstep => h.step hstep) (inv_init db cookie requested)
  have hsame : w.forget.session S = w.session S := rfl
  cases hsession : w.session S with
  | none =>
    obtain ⟨m, hm⟩ := hinv.exists_recent
    refine ⟨m, hm, ?_⟩
    have hnone := getCurrentUser_of_none (hsame.trans hsession)
    simp only [revalidateAccess, resolve, hnone, freshAccess, hsession, Option.filter_none]
  | some s =>
    obtain ⟨sessions, hfound⟩ := getCurrentUser_of_some (hsame.trans hsession)
    cases huser : w.db.users s.userId with
    | none =>
      obtain ⟨m, hm⟩ := hinv.exists_recent
      refine ⟨m, hm, ?_⟩
      have huser' : w.forget.db.users s.userId = none := huser
      simp only [revalidateAccess, resolve, hfound, huser', freshAccess, hsession, huser,
        Option.filter_none]
    | some user =>
      have huser' : w.forget.db.users s.userId = some user := huser
      have hresolve : (w.revalidateAccess S tenantId).2 =
          ((w.authenticated s sessions).resolveAccess S user).2.filter
            fun access => access.tenantId = tenantId := by
        simp only [revalidateAccess, resolve, hfound, huser']
        rfl
      have hinv' : (w.authenticated s sessions).Inv := ⟨hinv.cache, hinv.present⟩
      have hfresh (m : Moment) : w.freshAccess S m tenantId =
          (chooseAccess w.conn.requested s.activeTenantId
            (w.db.accesses S.backend w.utc user m)).filter
              fun access => access.tenantId = tenantId := by
        simp only [freshAccess, hsession, huser]
      cases hbackend : S.backend with
      | core =>
        obtain ⟨m, hm⟩ := hinv.exists_recent
        refine ⟨m, hm, ?_⟩
        rw [hresolve, hfresh, resolveAccess_core rfl hbackend, hbackend]
        rfl
      | enterprise =>
        have hremembered (out : Dict TenantAccess) (hout : w.conn.accesses = some (user.id, out)) :=
          hcurrent hbackend s user out hsession huser hout
        obtain ⟨m, hm, hchoose⟩ := hinv'.resolveAccess_enterprise rfl hbackend user hremembered
        refine ⟨m, hm, ?_⟩
        rw [hresolve, hfresh, hchoose, hbackend]
        rfl

/-! ### Samples -/

def sampleSetup (backend : Backend) : Setup := ⟨backend, (· ++ "-hmac"), (· ++ "-sha256")⟩

/-- User 7 has a session and the given memberships; there are no grants. -/
def sampleDatabase (memberships : List MembershipRow) : Database where
  sessions token := if token = "t-hmac" then some ⟨7, 100, none⟩ else none
  users id := if id = 7 then some ⟨7, false⟩ else none
  tenants _ := some ⟨true, 1⟩
  memberships := memberships
  providerMember _ _ := false
  grants := []

/-- A connection for tenant 2 has resolved its access, then the memberships change. -/
def sampleChanged (backend : Backend) (memberships : List MembershipRow) : World :=
  let w := ((init (sampleDatabase [⟨7, 2, "admin"⟩]) (some "t") (some 2)).resolve
    (sampleSetup backend)).1
  { w with
    db := sampleDatabase memberships
    moments := ⟨w.utc, w.monotonic, sampleDatabase memberships⟩ :: w.moments }

theorem run_sampleChanged (backend : Backend) (memberships : List MembershipRow) :
    Run (Step (sampleSetup backend))
      (init (sampleDatabase [⟨7, 2, "admin"⟩]) (some "t") (some 2))
      [.resolve, .change (sampleDatabase memberships) false] (sampleChanged backend memberships) :=
  .cons rfl (.cons rfl (.nil _))

/-- With the core backend a changed role is seen. -/
theorem revalidateAccess_after_role_change :
    ∃ m, (sampleChanged .core [⟨7, 2, "editor"⟩]).Recent m ∧
      (sampleChanged .core [⟨7, 2, "editor"⟩]).freshAccess (sampleSetup .core) m 2 =
        some ⟨2, "editor", .membership⟩ := by
  have hcurrent : UpToDate (sampleSetup .core) (sampleChanged .core [⟨7, 2, "editor"⟩]) :=
    fun hbackend => by cases hbackend
  obtain ⟨m, hm, hfresh⟩ :=
    revalidateAccess_eq_freshAccess (run_sampleChanged .core [⟨7, 2, "editor"⟩]) hcurrent 2
  exact ⟨m, hm, hfresh.symm.trans (by decide)⟩

/-- With the enterprise backend the connection keeps the access of a membership that is gone. -/
theorem revalidate_after_revocation :
    ¬∀ (S : Setup) (db : Database) (cookie : Option String) (requested : Option ℤ)
      (l : List Event) (w : World) (tenantId : ℤ) (access : TenantAccess),
      Run (Step S) (init db cookie requested) l w →
      (w.revalidateAccess S tenantId).2 = some access →
        ∃ m, w.Recent m ∧ w.freshAccess S m tenantId = some access := by
  intro hall
  obtain ⟨m, ⟨hm, -⟩, hfresh⟩ := hall _ _ _ _ _ _ 2 ⟨2, "admin", .membership⟩
    (run_sampleChanged .enterprise []) (by decide)
  have hmoments : (sampleChanged .enterprise []).moments =
      [⟨0, 0, sampleDatabase []⟩, ⟨0, 0, sampleDatabase [⟨7, 2, "admin"⟩]⟩] := rfl
  obtain rfl | rfl : m = ⟨0, 0, sampleDatabase []⟩ ∨
      m = ⟨0, 0, sampleDatabase [⟨7, 2, "admin"⟩]⟩ := by
    simpa [hmoments] using hm
  · exact absurd hfresh (by decide)
  · exact absurd hfresh (by decide)

end World

end Nodeglow.Tenancy.Access
