import Mathlib.Data.List.Sort
import Mathlib.Tactic.Linarith
import Nodeglow.Backend.Tenancy.AccessResolution

/-!
# Support access and the cache of active grants

A lookup of the support access of a user takes the active grants from the cache of the process, or
loads them: it sends a query, waits, and stores what the query has found, together with the time it
began to load. Meanwhile other requests grant and revoke support access and suspend tenants. Each
commits its change and then, as soon as it continues, forgets the cache.

A load whose query ran before a change may store its list after the change has been invalidated.
Within the lifetime of the cache a lookup that begins then returns a grant that has ended
(`Process.ended_grant_returned`). If no load stores a list with a grant that has ended
(`Process.StoresCurrent`), every lookup returns only grants that had not ended when it began
(`Process.access_current`).

## Main results

* `Process.Current.step`, `Process.access_current` — one event, and whole runs.

Source: `ee/backend/nodeglow_ee/tenancy/support.py`, lines 93–150;
`ee/backend/nodeglow_ee/tenancy/api.py`, lines 84–98 and 163–218.
-/

namespace Nodeglow.Tenancy.Support

open Access

/-! ### Changes -/

/-- A request that invalidates the cache after its commit. -/
inductive Change
  | grant (row : GrantRow)
  | revoke (grantId : ℤ)
  | suspend (tenantId : ℤ)
  deriving DecidableEq, Repr

namespace Change

/-- What is committed. The id of a new grant is new; a grant that does not exist is not revoked. -/
def apply (db : Database) : Change → Option Database
  | .grant row =>
      if row.id ∈ db.grants.map GrantRow.id then none
      else some { db with grants := db.grants.orderedInsert (fun g g' => g.id ≤ g'.id) row }
  | .revoke grantId =>
      if grantId ∈ db.grants.map GrantRow.id then
        some { db with grants := db.grants.map fun g =>
          if g.id = grantId then { g with revoked := true } else g }
      else none
  | .suspend tenantId =>
      match db.tenants tenantId with
      | some t =>
          some { db with
            tenants := Function.update db.tenants tenantId (some { t with active := false }) }
      | none => none

/-- The grants that a change ends: the revoked one, or those of the suspended tenant. -/
def Ends (grantId tenantId : ℤ) : Change → Prop
  | .grant _ => False
  | .revoke id => grantId = id
  | .suspend id => tenantId = id

instance (grantId tenantId : ℤ) (c : Change) : Decidable (c.Ends grantId tenantId) := by
  cases c <;> unfold Ends <;> infer_instance

/-- The grants that the change ends are ended in the database. -/
def Made (db : Database) : Change → Prop
  | .grant _ => True
  | .revoke id => id ∈ db.grants.map GrantRow.id ∧ ∀ g ∈ db.grants, g.id = id → g.revoked = true
  | .suspend id => db.tenantIsActive id = false

theorem made_of_apply {c : Change} {db db' : Database} (h : c.apply db = some db') :
    c.Made db' := by
  cases c with
  | grant row => trivial
  | revoke id =>
    obtain ⟨hid, rfl⟩ := made_of_guard h
    refine ⟨?_, ?_⟩
    · obtain ⟨g, hg, rfl⟩ := List.mem_map.mp hid
      exact List.mem_map.mpr ⟨_, List.mem_map_of_mem hg, by simp⟩
    · intro g hg hgid
      obtain ⟨g', -, rfl⟩ := List.mem_map.mp hg
      split_ifs at hgid ⊢ with hg'
      · rfl
      · exact absurd hgid hg'
  | suspend id =>
    simp only [apply] at h
    split at h
    · obtain rfl := Option.some.inj h
      simp [Made, Database.tenantIsActive]
    · cases h

/-- Later changes do not take it back. -/
theorem Made.of_apply {c c' : Change} {db db' : Database} (h : c.Made db)
    (happly : c'.apply db = some db') : c.Made db' := by
  cases c' with
  | grant row =>
    obtain ⟨hnew, rfl⟩ := made_of_guard_not happly
    cases c with
    | grant _ => trivial
    | suspend id => exact h
    | revoke id =>
      refine ⟨?_, ?_⟩
      · obtain ⟨g, hg, hid⟩ := List.mem_map.mp h.1
        exact List.mem_map.mpr ⟨g, (List.mem_orderedInsert _).mpr (Or.inr hg), hid⟩
      · intro g hg hid
        rcases (List.mem_orderedInsert _).mp hg with rfl | hg
        · exact absurd (hid ▸ h.1) hnew
        · exact h.2 g hg hid
  | revoke id' =>
    obtain ⟨-, rfl⟩ := made_of_guard happly
    cases c with
    | grant _ => trivial
    | suspend id => exact h
    | revoke id =>
      refine ⟨?_, ?_⟩
      · obtain ⟨g, hg, hid⟩ := List.mem_map.mp h.1
        refine List.mem_map.mpr ⟨_, List.mem_map_of_mem hg, ?_⟩
        split_ifs <;> exact hid
      · intro g hg hid
        obtain ⟨g', hg', rfl⟩ := List.mem_map.mp hg
        split_ifs at hid ⊢
        · rfl
        · exact h.2 g' hg' hid
  | suspend id' =>
    simp only [apply] at happly
    split at happly
    · obtain rfl := Option.some.inj happly
      cases c with
      | grant _ => trivial
      | revoke id => exact h
      | suspend id =>
        by_cases hid : id = id'
        · simp [Made, Database.tenantIsActive, hid]
        · simpa [Made, Database.tenantIsActive, Function.update_of_ne hid] using h
    · cases happly

/-- The query finds no grant that has ended. -/
theorem Made.not_ends {c : Change} {db : Database} (h : c.Made db) {utc : ℚ} {g : ActiveGrant}
    (hg : g ∈ db.activeGrants utc) : ¬c.Ends g.id g.tenantId := by
  obtain ⟨row, hrow, hfound⟩ := List.mem_filterMap.mp hg
  split at hfound
  · next t ht =>
    obtain ⟨⟨hrevoked, -, hactive⟩, rfl⟩ := made_of_guard hfound
    cases c with
    | grant _ => exact fun h => h
    | revoke id =>
      intro hid
      simp [h.2 row hrow hid] at hrevoked
    | suspend id =>
      intro hid
      change row.tenantId = id at hid
      simp [Made, Database.tenantIsActive, ← hid, ht, hactive] at h
  · cases hfound

end Change

/-! ### Lookups -/

/-- Where a call of `support_access_for` is. The first time is the one it began at. -/
inductive Phase
  | idle
  /-- The query for the active grants is on its way. -/
  | loading (now loadedAt utc : ℚ)
  /-- The query has run; the lookup has not continued. -/
  | loaded (now loadedAt : ℚ) (grants : List ActiveGrant)
  /-- The query for the providers of the user is on its way. -/
  | matching (now : ℚ) (grants : List ActiveGrant)
  | done (access : Dict (ℤ × String))
  deriving DecidableEq, Repr

structure Lookup where
  user : User
  phase : Phase
  /-- The changes that were made and invalidated before the lookup began. -/
  ended : List Change
  deriving DecidableEq, Repr

/-- One process, and the database. -/
structure Process where
  utc : ℚ
  monotonic : ℚ
  db : Database
  /-- `_active_cache`. -/
  activeCache : Option (ℚ × List ActiveGrant)
  lookups : ℕ → Lookup
  /-- The changes that are committed and not yet invalidated. -/
  committed : List Change
  /-- The changes that are committed and invalidated. -/
  ended : List Change

inductive Event
  | elapse (utc monotonic : ℚ)
  /-- A call of `support_access_for`, up to its first await. -/
  | start (lookup : ℕ) (user : User)
  /-- The database runs the query that a lookup waits for. -/
  | query (lookup : ℕ)
  /-- A lookup continues with the grants it has loaded. -/
  | resume (lookup : ℕ)
  | commit (change : Change)
  /-- `invalidate_grants`. -/
  | invalidate (change : Change)

namespace Process

variable (s : Process)

def init (utc monotonic : ℚ) (db : Database) : Process where
  utc := utc
  monotonic := monotonic
  db := db
  activeCache := none
  lookups _ := ⟨⟨0, false⟩, .idle, []⟩
  committed := []
  ended := []

/-- What is left of `support_access_for` once it has the active grants: operators, and users who
find no grant, need no query. -/
def withGrants (user : User) (now : ℚ) (grants : List ActiveGrant) : Phase :=
  if grants.filter (fun g => now < g.expiresAt) = [] ∨ user.isOperator then
    .done (supportAccessFor s.db now user grants)
  else .matching now grants

/-- `_active_grants`, up to its query. -/
def startPhase (user : User) : Phase :=
  match s.activeCache with
  | some (loadedAt, grants) =>
      if s.monotonic - loadedAt < grantCacheSeconds then s.withGrants user s.utc grants
      else .loading s.utc s.monotonic s.utc
  | none => .loading s.utc s.monotonic s.utc

def setPhase (k : ℕ) (phase : Phase) : Process :=
  { s with lookups := Function.update s.lookups k { s.lookups k with phase := phase } }

/-- One event; it has no value where the event cannot happen. -/
def step : Event → Option Process
  | .elapse utc monotonic =>
      if 0 ≤ monotonic then
        some { s with utc := s.utc + utc, monotonic := s.monotonic + monotonic }
      else none
  | .start k user =>
      match (s.lookups k).phase with
      | .idle | .done _ =>
          some { s with
            lookups := Function.update s.lookups k ⟨user, s.startPhase user, s.ended⟩ }
      | _ => none
  | .query k =>
      match (s.lookups k).phase with
      | .loading now loadedAt utc =>
          some (s.setPhase k (.loaded now loadedAt (s.db.activeGrants utc)))
      | .matching now grants =>
          some (s.setPhase k (.done (supportAccessFor s.db now (s.lookups k).user grants)))
      | _ => none
  | .resume k =>
      match (s.lookups k).phase with
      | .loaded now loadedAt grants =>
          some ({ s with activeCache := some (loadedAt, grants) }.setPhase k
            (s.withGrants (s.lookups k).user now grants))
      | _ => none
  | .commit c =>
      match c.apply s.db with
      | some db => some { s with db := db, committed := c :: s.committed }
      | none => none
  | .invalidate c =>
      if c ∈ s.committed then
        some { s with
          activeCache := none
          committed := s.committed.erase c
          ended := c :: s.ended }
      else none

/-- The transition relation of `Process.step`. -/
def Step (s : Process) (e : Event) (s' : Process) : Prop := s.step e = some s'

/-- A load that has not taken longer than the lifetime of the cache stores no grant that has
ended. -/
def StoresCurrent (s : Process) : Event → Prop
  | .resume k =>
      match (s.lookups k).phase with
      | .loaded _ loadedAt grants =>
          s.monotonic - loadedAt < grantCacheSeconds →
            ∀ g ∈ grants, ∀ c ∈ s.ended, ¬c.Ends g.id g.tenantId
      | _ => True
  | _ => True

end Process

/-! ### What a lookup has found -/

theorem mem_insert {d : Dict (ℤ × String)} {key : ℤ} {v : ℤ × String} {p : ℤ × (ℤ × String)}
    (hp : p ∈ Dict.insert d key v) : p = (key, v) ∨ p ∈ d := by
  unfold Dict.insert at hp
  split_ifs at hp
  · obtain ⟨q, hq, rfl⟩ := List.mem_map.mp hp
    split_ifs
    · exact Or.inl rfl
    · exact Or.inr hq
  · rcases List.mem_append.mp hp with hp | hp
    · exact Or.inr hp
    · exact Or.inl (List.mem_singleton.mp hp)

theorem exists_of_mem_foldl {grants : List ActiveGrant} {d : Dict (ℤ × String)}
    {p : ℤ × (ℤ × String)}
    (hp : p ∈ grants.foldl (fun d g => Dict.insert d g.tenantId (g.id, normaliseRole g.role)) d) :
    p ∈ d ∨ ∃ g ∈ grants, g.id = p.2.1 ∧ g.tenantId = p.1 := by
  induction grants generalizing d with
  | nil => exact Or.inl hp
  | cons g grants ih =>
    rcases ih hp with hp | ⟨g', hg', hid⟩
    · rcases mem_insert hp with rfl | hp
      · exact Or.inr ⟨g, List.mem_cons_self, rfl, rfl⟩
      · exact Or.inl hp
    · exact Or.inr ⟨g', List.mem_cons_of_mem g hg', hid⟩

/-- Every access comes from a grant. -/
theorem exists_grant_of_mem {db : Database} {now : ℚ} {user : User} {grants : List ActiveGrant}
    {p : ℤ × (ℤ × String)} (hp : p ∈ supportAccessFor db now user grants) :
    ∃ g ∈ grants, g.id = p.2.1 ∧ g.tenantId = p.1 := by
  rcases exists_of_mem_foldl hp with hp | ⟨g, hg, hid⟩
  · cases hp
  · refine ⟨g, ?_, hid⟩
    split_ifs at hg
    · exact List.mem_of_mem_filter hg
    · exact List.mem_of_mem_filter (List.mem_of_mem_filter hg)

/-- The grants that a change of the list has ended are not among the given ones. -/
def NoneEnded (changes : List Change) (grants : List ActiveGrant) : Prop :=
  ∀ g ∈ grants, ∀ c ∈ changes, ¬c.Ends g.id g.tenantId

/-- What a lookup has found so far had not ended when it began. -/
def Lookup.Current (l : Lookup) : Prop :=
  match l.phase with
  | .idle | .loading _ _ _ => True
  | .loaded _ _ grants | .matching _ grants => NoneEnded l.ended grants
  | .done access => ∀ p ∈ access, ∀ c ∈ l.ended, ¬c.Ends p.2.1 p.1

theorem NoneEnded.supportAccessFor {changes : List Change} {grants : List ActiveGrant}
    (h : NoneEnded changes grants) {db : Database} {now : ℚ} {user : User} :
    ∀ p ∈ supportAccessFor db now user grants, ∀ c ∈ changes, ¬c.Ends p.2.1 p.1 := by
  intro p hp c hc
  obtain ⟨g, hg, hid, htenant⟩ := exists_grant_of_mem hp
  rw [← hid, ← htenant]
  exact h g hg c hc

namespace Process

variable {s s' : Process}

theorem NoneEnded.withGrants {user : User} {changes : List Change} {grants : List ActiveGrant}
    (h : NoneEnded changes grants) (now : ℚ) :
    Lookup.Current ⟨user, s.withGrants user now grants, changes⟩ := by
  unfold Process.withGrants
  split_ifs
  · exact h.supportAccessFor
  · exact h

/-! ### The invariant -/

/-- The changes are made in the database; the cache, as long as it is used, holds no grant that has
ended; and no lookup has found one that had ended when it began. -/
structure Current (s : Process) : Prop where
  made : ∀ c, c ∈ s.committed ∨ c ∈ s.ended → c.Made s.db
  cache : ∀ loadedAt grants, s.activeCache = some (loadedAt, grants) →
    s.monotonic - loadedAt < grantCacheSeconds → NoneEnded s.ended grants
  earlier : ∀ k, ∀ c ∈ (s.lookups k).ended, c ∈ s.ended
  lookups : ∀ k, (s.lookups k).Current

theorem current_init (utc monotonic : ℚ) (db : Database) : (init utc monotonic db).Current :=
  ⟨fun c hc => by simp [init] at hc, fun _ _ h => by simp [init] at h,
    fun k c hc => by simp [init] at hc, fun k => trivial⟩

theorem lookups_update {lookups : ℕ → Lookup} {P : Lookup → Prop} (h : ∀ k, P (lookups k)) {k : ℕ}
    {l : Lookup} (hl : P l) (j : ℕ) : P (Function.update lookups k l j) := by
  by_cases hj : j = k
  · rw [hj, Function.update_self]
    exact hl
  · rw [Function.update_of_ne hj]
    exact h j

/-- A lookup gets on. -/
theorem Current.setPhase (h : s.Current) {k : ℕ} {phase : Phase}
    (hphase : Lookup.Current { s.lookups k with phase := phase }) : (s.setPhase k phase).Current :=
  ⟨h.made, h.cache, lookups_update (P := fun l => ∀ c ∈ l.ended, c ∈ s.ended) h.earlier (h.earlier k),
    lookups_update h.lookups hphase⟩

/-- A lookup that begins takes no grant that has ended from the cache. -/
theorem Current.startPhase (h : s.Current) (user : User) :
    Lookup.Current ⟨user, s.startPhase user, s.ended⟩ := by
  unfold Process.startPhase
  split
  · next loadedAt grants hcache =>
    split_ifs with hage
    · exact NoneEnded.withGrants (h.cache loadedAt grants hcache hage) s.utc
    · trivial
  · trivial

/-- **One event.** -/
theorem Current.step {e : Event} (h : s.Current) (hstores : s.StoresCurrent e)
    (hstep : s.Step e s') : s'.Current := by
  unfold Step Process.step at hstep
  cases e with
  | elapse utc monotonic =>
    obtain ⟨hpos, rfl⟩ := made_of_guard hstep
    refine ⟨h.made, fun loadedAt grants hcache hage => ?_, h.earlier, h.lookups⟩
    refine h.cache loadedAt grants hcache ?_
    change s.monotonic + monotonic - loadedAt < grantCacheSeconds at hage
    linarith
  | start k user =>
    have hset : Current { s with
        lookups := Function.update s.lookups k ⟨user, s.startPhase user, s.ended⟩ } :=
      ⟨h.made, h.cache,
        lookups_update (P := fun l => ∀ c ∈ l.ended, c ∈ s.ended) h.earlier fun _ hc => hc,
        lookups_update h.lookups (h.startPhase user)⟩
    simp only at hstep
    split at hstep
    · exact Option.some.inj hstep ▸ hset
    · exact Option.some.inj hstep ▸ hset
    · cases hstep
  | query k =>
    simp only at hstep
    split at hstep
    · obtain rfl := Option.some.inj hstep
      refine h.setPhase fun g hg c hc => ?_
      exact (h.made c (Or.inr (h.earlier k c hc))).not_ends hg
    · next now grants hphase =>
      obtain rfl := Option.some.inj hstep
      have hfound := h.lookups k
      rw [Lookup.Current, hphase] at hfound
      exact h.setPhase hfound.supportAccessFor
    · cases hstep
  | resume k =>
    simp only at hstep
    split at hstep
    · next now loadedAt grants hphase =>
      obtain rfl := Option.some.inj hstep
      have hfound := h.lookups k
      rw [Lookup.Current, hphase] at hfound
      have hstored : Current { s with activeCache := some (loadedAt, grants) } := by
        refine ⟨h.made, fun at' grants' hcache hage => ?_, h.earlier, h.lookups⟩
        obtain ⟨rfl, rfl⟩ : loadedAt = at' ∧ grants = grants' := by simpa using hcache
        simp only [StoresCurrent, hphase] at hstores
        exact hstores hage
      exact hstored.setPhase (NoneEnded.withGrants hfound now)
    · cases hstep
  | commit c =>
    simp only at hstep
    split at hstep
    · next db happly =>
      obtain rfl := Option.some.inj hstep
      refine ⟨fun c' hc' => ?_, h.cache, h.earlier, h.lookups⟩
      rcases hc' with hc' | hc'
      · rcases List.mem_cons.mp hc' with rfl | hc'
        · exact Change.made_of_apply happly
        · exact (h.made c' (Or.inl hc')).of_apply happly
      · exact (h.made c' (Or.inr hc')).of_apply happly
    · cases hstep
  | invalidate c =>
    obtain ⟨hc, rfl⟩ := made_of_guard hstep
    refine ⟨fun c' hc' => ?_, fun _ _ hcache => by simp at hcache,
      fun k c' hc' => List.mem_cons_of_mem c (h.earlier k c' hc'), h.lookups⟩
    rcases hc' with hc' | hc'
    · exact h.made c' (Or.inl (List.mem_of_mem_erase hc'))
    · rcases List.mem_cons.mp hc' with rfl | hc'
      · exact h.made c' (Or.inl hc)
      · exact h.made c' (Or.inr hc')

/-- **Ended grants are not returned**, in every state that a run reaches in which no load stores a
grant that has ended: an access that a lookup has found is of a grant that no change had ended
that was made and invalidated before the lookup began. -/
theorem access_current {utc monotonic : ℚ} {db : Database} {l : List Event}
    (hrun : Run (Guarded StoresCurrent Step) (init utc monotonic db) l s) {k : ℕ}
    {access : Dict (ℤ × String)} (hdone : (s.lookups k).phase = .done access) :
    ∀ p ∈ access, ∀ c ∈ (s.lookups k).ended, ¬c.Ends p.2.1 p.1 := by
  have h : s.Current :=
    hrun.invariant (fun _ _ _ h hstep => h.step hstep.1 hstep.2) (current_init utc monotonic db)
  have hfound := h.lookups k
  rwa [Lookup.Current, hdone] at hfound

/-! ### Samples -/

/-- Tenants 2 and 3 have granted support access; user 1 is an operator. -/
def sampleDatabase : Database where
  sessions _ := none
  users _ := none
  tenants _ := some ⟨true, 1⟩
  memberships := []
  providerMember _ _ := false
  grants := [⟨1, 2, "admin", 100, false⟩, ⟨2, 3, "editor", 100, false⟩]

def sampleOperator : User := ⟨1, true⟩

/-- A lookup loads the grants, then the first is revoked, and a second lookup begins. -/
def sampleRevoked : List Event :=
  [.start 0 sampleOperator, .query 0, .resume 0, .commit (.revoke 1), .invalidate (.revoke 1),
    .start 1 sampleOperator, .query 1, .resume 1]

/-- The first lookup stores the grants after the invalidation. -/
def sampleOverwritten : List Event :=
  [.start 0 sampleOperator, .query 0, .commit (.revoke 1), .invalidate (.revoke 1), .resume 0,
    .start 1 sampleOperator]

instance (s : Process) (e : Event) : Decidable (s.StoresCurrent e) := by
  unfold StoresCurrent
  split
  · split <;> infer_instance
  · infer_instance

def sampleView (s : Process) : Phase × List Change := ((s.lookups 1).phase, (s.lookups 1).ended)

/-- The second lookup returns the other grant. -/
theorem access_current_after_revoke :
    ∃ s, Run (Guarded StoresCurrent Step) (init 0 0 sampleDatabase) sampleRevoked s ∧
      (s.lookups 1).phase = .done [(3, (2, "editor"))] ∧ (s.lookups 1).ended = [.revoke 1] ∧
      ∀ p ∈ [((3 : ℤ), ((2 : ℤ), "editor"))], ∀ c ∈ (s.lookups 1).ended, ¬c.Ends p.2.1 p.1 := by
  have hview : (sampleRevoked.foldlM
      (fun (s : Process) e => if s.StoresCurrent e then s.step e else none)
      (init 0 0 sampleDatabase)).map sampleView =
        some (.done [(3, (2, "editor"))], [.revoke 1]) := by
    decide +kernel
  obtain ⟨s, hs, heq⟩ := Option.map_eq_some_iff.mp hview
  obtain ⟨hphase, hended⟩ := Prod.mk.inj heq
  have hrun := Run.guarded_of_foldlM hs
  exact ⟨s, hrun, hphase, hended, access_current hrun hphase⟩

/-- The second lookup begins after the invalidation and returns the revoked grant. -/
theorem ended_grant_returned :
    ¬∀ (utc monotonic : ℚ) (db : Database) (l : List Event) (s : Process) (k : ℕ)
      (access : Dict (ℤ × String)),
      Run Step (init utc monotonic db) l s → (s.lookups k).phase = .done access →
        ∀ p ∈ access, ∀ c ∈ (s.lookups k).ended, ¬c.Ends p.2.1 p.1 := by
  intro hall
  have hview : (sampleOverwritten.foldlM step (init 0 0 sampleDatabase)).map sampleView =
      some (.done [(2, (1, "admin")), (3, (2, "editor"))], [.revoke 1]) := by
    decide +kernel
  obtain ⟨s, hs, heq⟩ := Option.map_eq_some_iff.mp hview
  obtain ⟨hphase, hended⟩ := Prod.mk.inj heq
  refine hall _ _ _ _ s 1 _ (Run.of_foldlM hs) hphase (2, (1, "admin")) (by simp) (.revoke 1) ?_ rfl
  simp [hended]

end Process

end Nodeglow.Tenancy.Support
