import Mathlib.Logic.Function.Basic
import Nodeglow.Foundation.Run
import Nodeglow.Foundation.Text

/-!
# The enrolment of agents

An agent is enrolled with an install token, which decides its tenant and site, and gets a token of
its own, with which it reports from then on. A host that is enrolled already gets a new token only
if the request presents the current one. The tokens of older installations are stored with a hash
that is replaced when an agent reports.

The requests of all clients interleave at their database calls: between the lookup of an agent and
the commit that changes it other requests may commit, agents may be deleted, and install tokens may
be revoked. A request can fail anywhere.

Tokens are names and hashes are symbols, so that two tokens never have one hash. A client can
present the agent tokens that it has been given; any client may have any install token. Whoever
enrols an agent is its creator. No client but the creator is ever given a token of an agent or can
report as it (`World.only_creator`), and an agent stays in the tenant of its install token.

## Main results

* `World.Sound.step` — one event.

Source: `backend/routers/agents.py`, lines 30–61, 98–121, 137–199, 204–369, 374–446, 788–826 and
863–875; `backend/models/agent.py`, lines 15–63.
-/

namespace Nodeglow.Enrolment

/-! ### Tables -/

/-- `_hash_agent_token` and `_hash_agent_token_legacy`. -/
inductive Digest
  | hmac (token : ℕ)
  | sha256 (token : ℕ)
  deriving DecidableEq, Repr

def Digest.token : Digest → ℕ
  | hmac t | sha256 t => t

/-- An install token, which is stored under its hash. -/
structure InstallToken where
  tenant : ℕ
  site : Option ℕ
  revoked : Bool
  expiresAt : ℤ
  hostnamePattern : Option String
  usedCount : ℕ
  lastUsedAt : Option ℤ
  deriving DecidableEq, Repr

structure Agent where
  tenant : ℕ
  site : Option ℕ
  hostname : String
  token : Digest
  platform : String
  arch : String
  enabled : Bool
  lastSeen : Option ℤ
  deriving DecidableEq, Repr

/-- What a request asks for: to enrol, or to report. -/
inductive Kind
  | enrol (key : ℕ) (hostname platform arch : String) (presented : Option ℕ)
  | report (token : ℕ) (hostname platform arch : Option String)
  deriving DecidableEq, Repr

inductive Response
  | error (status : ℕ) (text : String) (code : Option String)
  /-- `{"ok": True, "token": ..., "agent_id": ...}`. -/
  | enrolled (token agentId : ℕ)
  /-- The report is taken for one of the agent. -/
  | reported (agentId : ℕ)
  deriving DecidableEq, Repr

/-- How far a request has come. A request keeps the rows that it has read. -/
inductive Stage
  | received
  /-- The install token has been found. -/
  | lookedUp (row : InstallToken)
  /-- The install token is good; the row is about to be committed. -/
  | consuming (row : InstallToken)
  /-- The install token was not good. -/
  | refused
  /-- In the scope of the tenant. -/
  | authorized (tenant : ℕ) (site : Option ℕ)
  /-- The agent exists, and its current token has been presented. -/
  | rotating (agentId : ℕ) (row : Agent)
  | creating (tenant : ℕ) (site : Option ℕ)
  /-- The new agent has been committed. -/
  | created (token agentId : ℕ)
  /-- No agent has the token with the current hash. -/
  | legacy
  /-- The agent has been found, and its hash may have to be replaced. -/
  | found (agentId : ℕ) (row : Agent) (migrate : Bool)
  /-- The tenant of the agent is active. -/
  | reporting (agentId : ℕ) (row : Agent) (migrate : Bool)
  | answered (response : Response)
  deriving DecidableEq, Repr

structure Request where
  client : ℕ
  kind : Kind
  stage : Stage
  deriving DecidableEq, Repr

/-- Who has enrolled an agent, and with which key. -/
structure Origin where
  client : ℕ
  key : ℕ
  deriving DecidableEq, Repr

/-- The tables, the requests, and what has happened to the tokens. -/
structure World where
  now : ℤ
  active : ℕ → Bool
  /-- The install tokens by their names. -/
  installTokens : ℕ → Option InstallToken
  /-- `NODEGLOW_ALLOW_SHARED_ENROLLMENT`, and the shared key. -/
  sharedAllowed : Bool
  sharedKey : ℕ
  tenantCount : ℕ
  defaultSite : Option ℕ
  agents : ℕ → Option Agent
  nextId : ℕ
  /-- The token that comes next. -/
  nextToken : ℕ
  requests : List Request
  /-- The agent tokens that a client has been given. -/
  knows : ℕ → List ℕ
  /-- The agent for which a token has been made. -/
  minted : ℕ → Option ℕ
  origin : ℕ → Option Origin

def defaultTenantId : ℕ := 1

/-! ### The functions of the router -/

section Functions

variable (fnmatchcase : String → String → Bool) (lower : String → String)

/-- The hostname pattern of a token accepts the hostname. -/
def matchesPattern (pattern : Option String) (hostname : String) : Bool :=
  match pattern with
  | none => true
  | some p =>
    let pat := Text.asciiLower (Text.strip p)
    pat = "" || fnmatchcase (Text.asciiLower hostname) pat

/-- `_consume_install_token`, after the lookup: the changed row, or the reason for the log. -/
def consumeInstallToken (active : ℕ → Bool) (now : ℤ) (row : InstallToken) (hostname : String) :
    Except String InstallToken :=
  if !active row.tenant then .error "tenant_inactive"
  else if row.revoked then .error "revoked"
  else if row.expiresAt ≤ now then .error "expired"
  else if !matchesPattern fnmatchcase row.hostnamePattern hostname then .error "hostname_mismatch"
  else .ok { row with usedCount := row.usedCount + 1, lastUsedAt := some now }

/-- `_presented_agent_token_matches`. -/
def presentedAgentTokenMatches (presented : Option ℕ) (agent : Agent) : Bool :=
  presented.any fun p => agent.token = .hmac p || agent.token = .sha256 p

/-- The check of the hostname, which is stripped. -/
def validHostname (hostname : String) : Bool :=
  match hostname.toList with
  | [] => false
  | c :: cs => c.isAlphanum && cs.all (fun c => c.isAlphanum || c = '.' || c = '-') &&
      hostname.length ≤ 253

/-- `plat or existing.platform`. -/
def orElse (s t : String) : String := if s = "" then t else s

/-- A column is written if the request has changed the value that it read. -/
def written (read new current : String) : String := if new = read then current else new

namespace World

variable (w : World)

/-- The agent of a tenant with the hostname, in any case. -/
def byHostname (tenant : ℕ) (hostname : String) : Option ℕ :=
  (List.range w.nextId).find? fun id => (w.agents id).any fun a =>
    a.tenant = tenant && lower a.hostname = Text.asciiLower hostname

/-- The enabled agent that has the hash. -/
def byToken (d : Digest) : Option ℕ :=
  (List.range w.nextId).find? fun id => (w.agents id).any fun a => a.enabled && a.token = d

/-- The index `ix_agents_hostname_lower` accepts a hostname for the agent. -/
def acceptsHostname (id tenant : ℕ) (hostname : String) : Bool :=
  (List.range w.nextId).all fun id' => id' = id || !(w.agents id').any fun a =>
    a.tenant = tenant && lower a.hostname = lower hostname

def setAgent (id : ℕ) (a : Agent) : World :=
  { w with agents := Function.update w.agents id (some a) }

/-- The id of a new agent, whose creator is remembered. -/
def newId (client key : ℕ) : World :=
  { w with
    nextId := w.nextId + 1
    origin := Function.update w.origin w.nextId (some ⟨client, key⟩) }

/-- A new token for an agent. -/
def mint (id : ℕ) : World :=
  { w with
    nextToken := w.nextToken + 1
    minted := Function.update w.minted w.nextToken (some id) }

/-- A client is given a token. -/
def give (client token : ℕ) : World :=
  { w with knows := Function.update w.knows client (token :: w.knows client) }

/-- The commit of a used install token. The count is that of the row read, plus one. -/
def commitInstallToken (key : ℕ) (row : InstallToken) : World :=
  { w with
    installTokens := Function.update w.installTokens key ((w.installTokens key).map fun t =>
      { t with usedCount := row.usedCount, lastUsedAt := row.lastUsedAt }) }

def withStage (i : ℕ) (r : Request) (stage : Stage) : World :=
  { w with requests := w.requests.set i { r with stage := stage } }

/-- What a database error is answered with. -/
def serverError : Stage := .answered (.error 500 "Internal Server Error" none)

/-- The answer to a request for a host that is enrolled already. -/
def agentExists : Response :=
  .error 409 ("An agent with this hostname is already enrolled. Re-run the " ++
    "installer on that host with its existing config, or delete " ++
    "the agent in Nodeglow first.") (some "agent_exists")

def forbidden : Stage := .answered (.error 403 "Invalid or disabled token" none)

/-- The first lookup in `agent_enroll`. -/
def lookUpInstallToken (key : ℕ) (hostname : String) : Stage :=
  if !validHostname hostname then .answered (.error 400 "Invalid hostname" none)
  else match w.installTokens key with
  | none => .refused
  | some row => .lookedUp row

/-- The way with the shared key, for an installation with one tenant. -/
def trySharedKey (key : ℕ) : Stage :=
  if w.sharedAllowed && key = w.sharedKey && w.tenantCount ≤ 1 then
    .authorized defaultTenantId w.defaultSite
  else .answered (.error 403 "Invalid enrollment credential" none)

/-- The lookup in `_enroll_in_tenant`. -/
def lookUpAgent (tenant : ℕ) (site : Option ℕ) (hostname : String) (presented : Option ℕ) :
    Stage :=
  match w.byHostname lower tenant hostname with
  | none => .creating tenant site
  | some id => match w.agents id with
    | none => .creating tenant site
    | some a =>
      if presentedAgentTokenMatches presented a then .rotating id a
      else .answered agentExists

/-- One of the two lookups of `_find_agent_by_token`. -/
def findAgent (d : Digest) (migrate : Bool) : Option Stage :=
  (w.byToken d).bind fun id => (w.agents id).map fun a => .found id a migrate

/-- The commit of a new token for an agent that exists. -/
def rotate (i : ℕ) (r : Request) (id : ℕ) (row : Agent) (platform arch : String) : World :=
  match w.agents id with
  | none => w.withStage i r serverError
  | some a =>
    (((w.mint id).setAgent id { a with
        token := .hmac w.nextToken
        platform := written row.platform (orElse platform row.platform) a.platform
        arch := written row.arch (orElse arch row.arch) a.arch
        lastSeen := some w.now }).give r.client w.nextToken).withStage i r
      (.answered (.enrolled w.nextToken id))

/-- The commit of a new agent. -/
def create (i : ℕ) (r : Request) (key tenant : ℕ) (site : Option ℕ)
    (hostname platform arch : String) : World :=
  if w.acceptsHostname lower w.nextId tenant hostname then
    (((w.newId r.client key).mint w.nextId).setAgent w.nextId
        ⟨tenant, site, hostname, .hmac w.nextToken, platform, arch, true, none⟩).withStage i r
      (.created w.nextToken w.nextId)
  else w.withStage i r serverError

/-- The next step of a request that enrols an agent. -/
def enrol (i : ℕ) (r : Request) (key : ℕ) (hostname platform arch : String)
    (presented : Option ℕ) : Option World :=
  match r.stage with
  | .received => some (w.withStage i r (w.lookUpInstallToken key hostname))
  | .lookedUp row =>
      some (w.withStage i r (match consumeInstallToken fnmatchcase w.active w.now row hostname with
        | .ok row => .consuming row
        | .error _ => .refused))
  | .consuming row =>
      some ((w.commitInstallToken key row).withStage i r (.authorized row.tenant row.site))
  | .refused => some (w.withStage i r (w.trySharedKey key))
  | .authorized tenant site =>
      some (w.withStage i r (w.lookUpAgent lower tenant site hostname presented))
  | .rotating id row => some (w.rotate i r id row platform arch)
  | .creating tenant site => some (w.create lower i r key tenant site hostname platform arch)
  | .created token id =>
      match w.agents id with
      | none => some (w.withStage i r serverError)
      | some _ => some ((w.give r.client token).withStage i r (.answered (.enrolled token id)))
  | _ => none

/-- The commit of a report. -/
def handleReport (i : ℕ) (r : Request) (token id : ℕ) (row : Agent) (migrate : Bool)
    (hostname platform arch : Option String) : World :=
  match w.agents id with
  | none => w.withStage i r serverError
  | some a =>
    let host := written row.hostname (hostname.getD row.hostname) a.hostname
    if w.acceptsHostname lower id a.tenant host then
      (w.setAgent id { a with
        hostname := host
        platform := written row.platform (platform.getD row.platform) a.platform
        arch := written row.arch (arch.getD row.arch) a.arch
        token := if migrate then .hmac token else a.token
        lastSeen := some w.now }).withStage i r (.answered (.reported id))
    else w.withStage i r serverError

/-- The next step of a request that reports. -/
def report (i : ℕ) (r : Request) (token : ℕ) (hostname platform arch : Option String) :
    Option World :=
  match r.stage with
  | .received => some (w.withStage i r ((w.findAgent (.hmac token) false).getD .legacy))
  | .legacy => some (w.withStage i r ((w.findAgent (.sha256 token) true).getD forbidden))
  | .found id row migrate =>
      some (w.withStage i r (if w.active row.tenant then .reporting id row migrate else forbidden))
  | .reporting id row migrate =>
      some (w.handleReport lower i r token id row migrate hostname platform arch)
  | _ => none

end World

end Functions

/-! ### Events -/

/-- Time passes, tenants and install tokens come and go, agents are deleted, and requests arrive, go
on, or fail. -/
inductive Event
  | wait (t : ℤ)
  | tenants (active : ℕ → Bool) (count : ℕ)
  | issue (token : ℕ) (row : InstallToken)
  | revoke (token : ℕ)
  | delete (agentId : ℕ)
  | send (client : ℕ) (kind : Kind)
  | goOn (i : ℕ)
  | fail (i : ℕ)

/-- The agent token that a request presents. -/
def Kind.presents : Kind → Option ℕ
  | enrol _ _ _ _ presented => presented
  | report token _ _ _ => some token

/-- The key that a request enrols with. -/
def Kind.key : Kind → Option ℕ
  | enrol key _ _ _ _ => some key
  | report _ _ _ _ => none

def Stage.isAnswered : Stage → Bool
  | answered _ => true
  | _ => false

section Step

variable (fnmatchcase : String → String → Bool) (lower : String → String)

/-- One event. -/
def World.step (w : World) : Event → Option World
  | .wait t => if w.now ≤ t then some { w with now := t } else none
  | .tenants active count => some { w with active := active, tenantCount := count }
  | .issue token row =>
      if w.installTokens token = none then
        some { w with installTokens := Function.update w.installTokens token (some row) }
      else none
  | .revoke token =>
      some { w with
        installTokens := Function.update w.installTokens token
          ((w.installTokens token).map fun row => { row with revoked := true }) }
  | .delete id => some { w with agents := Function.update w.agents id none }
  | .send client kind =>
      if ∀ t ∈ kind.presents, t ∈ w.knows client then
        some { w with requests := w.requests ++ [⟨client, kind, .received⟩] }
      else none
  | .goOn i =>
      match w.requests[i]? with
      | some r =>
          match r.kind with
          | .enrol key hostname platform arch presented =>
              w.enrol fnmatchcase lower i r key hostname platform arch presented
          | .report token hostname platform arch =>
              w.report lower i r token hostname platform arch
      | none => none
  | .fail i =>
      match w.requests[i]? with
      | some r => if r.stage.isAnswered then none else some (w.withStage i r World.serverError)
      | none => none

def World.Step (w : World) (e : Event) (w' : World) : Prop :=
  w.step fnmatchcase lower e = some w'

end Step

/-! ### The invariant -/

namespace World

/-- The key enrols agents into the tenant and the site. -/
def Grants (w : World) (key tenant : ℕ) (site : Option ℕ) : Prop :=
  (∃ row, w.installTokens key = some row ∧ row.tenant = tenant ∧ row.site = site) ∨
    w.sharedAllowed ∧ key = w.sharedKey ∧ tenant = defaultTenantId ∧ site = w.defaultSite

def IsCreator (w : World) (client id : ℕ) : Prop := ∃ key, w.origin id = some ⟨client, key⟩

/-- The tables of an installation: an agent has a token made for it, which only its creator has been
given, and is where its key has put it. -/
structure Registered (w : World) : Prop where
  fresh : ∀ t id, w.minted t = some id → t < w.nextToken ∧ id < w.nextId
  origins : ∀ id o, w.origin id = some o → id < w.nextId
  known : ∀ c, ∀ t ∈ w.knows c, t < w.nextToken
  secret : ∀ c, ∀ t ∈ w.knows c, ∀ id, w.minted t = some id → w.IsCreator c id
  agent : ∀ id a, w.agents id = some a → w.minted a.token.token = some id ∧
    ∃ o, w.origin id = some o ∧ w.Grants o.key a.tenant a.site

/-- What a request has found out is true. -/
def Proper (w : World) (client : ℕ) (kind : Kind) : Stage → Prop
  | .lookedUp row | .consuming row => ∃ key ∈ kind.key, w.Grants key row.tenant row.site
  | .authorized tenant site | .creating tenant site =>
      ∃ key ∈ kind.key, w.Grants key tenant site
  | .rotating id _ => w.IsCreator client id
  | .created token id => w.minted token = some id ∧ w.IsCreator client id
  | .found id _ migrate | .reporting id _ migrate =>
      w.IsCreator client id ∧ (migrate = true → ∃ t ∈ kind.presents, w.minted t = some id)
  | .answered (.enrolled _ id) | .answered (.reported id) => w.IsCreator client id
  | _ => True

/-- The invariant. -/
structure Sound (w : World) : Prop where
  registered : w.Registered
  presents : ∀ r ∈ w.requests, ∀ t ∈ r.kind.presents, t ∈ w.knows r.client
  proper : ∀ r ∈ w.requests, w.Proper r.client r.kind r.stage

/-- What stays true. -/
structure Le (w w' : World) : Prop where
  knows : ∀ c, ∀ t ∈ w.knows c, t ∈ w'.knows c
  minted : ∀ t id, w.minted t = some id → w'.minted t = some id
  origin : ∀ id o, w.origin id = some o → w'.origin id = some o
  grants : ∀ key tenant site, w.Grants key tenant site → w'.Grants key tenant site

variable {w w' : World}

theorem Le.refl (w : World) : w.Le w where
  knows _ _ h := h
  minted _ _ h := h
  origin _ _ h := h
  grants _ _ _ h := h

theorem Le.trans {w₁ w₂ w₃ : World} (h : w₁.Le w₂) (h' : w₂.Le w₃) : w₁.Le w₃ where
  knows c t ht := h'.knows c t (h.knows c t ht)
  minted t id ht := h'.minted t id (h.minted t id ht)
  origin id o ho := h'.origin id o (h.origin id o ho)
  grants key tenant site hg := h'.grants key tenant site (h.grants key tenant site hg)

theorem Le.isCreator (h : w.Le w') {c id : ℕ} (hc : w.IsCreator c id) : w'.IsCreator c id :=
  hc.imp fun _ ho => h.origin id _ ho

theorem Proper.mono (hle : w.Le w') {client : ℕ} {kind : Kind} {stage : Stage}
    (h : w.Proper client kind stage) : w'.Proper client kind stage := by
  cases stage with
  | lookedUp row | consuming row | authorized tenant site | creating tenant site =>
    obtain ⟨key, hkey, hg⟩ := h
    exact ⟨key, hkey, hle.grants _ _ _ hg⟩
  | rotating id row => exact hle.isCreator h
  | created token id => exact ⟨hle.minted _ _ h.1, hle.isCreator h.2⟩
  | found id row migrate | reporting id row migrate =>
    refine ⟨hle.isCreator h.1, fun hm => ?_⟩
    obtain ⟨t, ht, hid⟩ := h.2 hm
    exact ⟨t, ht, hle.minted _ _ hid⟩
  | answered response =>
    cases response with
    | error status text code => trivial
    | enrolled token id => exact hle.isCreator h
    | reported id => exact hle.isCreator h
  | received | refused | legacy => trivial

/-! ### Changes of the tables -/

theorem le_newId (h : w.Registered) (client key : ℕ) : w.Le (w.newId client key) where
  knows _ _ h := h
  minted _ _ h := h
  origin id o ho := by
    have hne : id ≠ w.nextId := (h.origins id o ho).ne
    exact (Function.update_of_ne hne _ _).trans ho
  grants _ _ _ h := h

theorem Registered.newId (h : w.Registered) (client key : ℕ) : (w.newId client key).Registered where
  fresh t id ht := ⟨(h.fresh t id ht).1, Nat.lt_succ_of_lt (h.fresh t id ht).2⟩
  origins id o ho := by
    by_cases hid : id = w.nextId
    · exact hid ▸ Nat.lt_succ_self _
    · have ho : w.origin id = some o := (Function.update_of_ne hid _ _).symm.trans ho
      exact Nat.lt_succ_of_lt (h.origins id o ho)
  known := h.known
  secret c t ht id hid := (le_newId h client key).isCreator (h.secret c t ht id hid)
  agent id a ha := by
    obtain ⟨ht, o, ho, hg⟩ := h.agent id a ha
    exact ⟨ht, o, (le_newId h client key).origin id o ho, hg⟩

theorem le_mint (h : w.Registered) (id : ℕ) : w.Le (w.mint id) where
  knows _ _ h := h
  minted t id' ht := by
    have hne : t ≠ w.nextToken := (h.fresh t id' ht).1.ne
    exact (Function.update_of_ne hne _ _).trans ht
  origin _ _ h := h
  grants _ _ _ h := h

theorem minted_mint (w : World) (id : ℕ) : (w.mint id).minted w.nextToken = some id :=
  Function.update_self _ _ _

theorem Registered.mint (h : w.Registered) {id : ℕ} (hid : id < w.nextId) :
    (w.mint id).Registered where
  fresh t id' ht := by
    by_cases htt : t = w.nextToken
    · subst htt
      obtain rfl := Option.some.inj ((minted_mint w id).symm.trans ht)
      exact ⟨Nat.lt_succ_self _, hid⟩
    · have ht : w.minted t = some id' := (Function.update_of_ne htt _ _).symm.trans ht
      exact ⟨Nat.lt_succ_of_lt (h.fresh t id' ht).1, (h.fresh t id' ht).2⟩
  origins := h.origins
  known c t ht := Nat.lt_succ_of_lt (h.known c t ht)
  secret c t ht id' hid' := by
    have hne : t ≠ w.nextToken := (h.known c t ht).ne
    exact h.secret c t ht id' ((Function.update_of_ne hne _ _).symm.trans hid')
  agent id' a ha := ⟨(le_mint h id).minted _ _ (h.agent id' a ha).1, (h.agent id' a ha).2⟩

/-- Only the agents change. -/
theorem le_agents (w : World) (agents : ℕ → Option Agent) : w.Le { w with agents := agents } where
  knows _ _ h := h
  minted _ _ h := h
  origin _ _ h := h
  grants _ _ _ h := h

theorem le_setAgent (w : World) (id : ℕ) (a : Agent) : w.Le (w.setAgent id a) := le_agents w _

theorem Registered.agents (h : w.Registered) {agents : ℕ → Option Agent}
    (ha : ∀ id a, agents id = some a → w.minted a.token.token = some id ∧
      ∃ o, w.origin id = some o ∧ w.Grants o.key a.tenant a.site) :
    { w with agents := agents }.Registered where
  fresh := h.fresh
  origins := h.origins
  known := h.known
  secret := h.secret
  agent := ha

theorem Registered.setAgent (h : w.Registered) {id : ℕ} {a : Agent} {o : Origin}
    (ht : w.minted a.token.token = some id) (ho : w.origin id = some o)
    (hg : w.Grants o.key a.tenant a.site) : (w.setAgent id a).Registered := by
  refine h.agents fun id' a' ha => ?_
  by_cases hid : id' = id
  · subst hid
    have hself : Function.update w.agents id' (some a) id' = some a := Function.update_self _ _ _
    obtain rfl := Option.some.inj (hself.symm.trans ha)
    exact ⟨ht, o, ho, hg⟩
  · exact h.agent id' a' ((Function.update_of_ne hid _ _).symm.trans ha)

/-- An agent that is rewritten stays in its tenant and at its site. -/
theorem Registered.rewriteAgent (h : w.Registered) {id : ℕ} {a b : Agent}
    (ha : w.agents id = some a) (ht : w.minted b.token.token = some id)
    (htenant : b.tenant = a.tenant) (hsite : b.site = a.site) : (w.setAgent id b).Registered := by
  obtain ⟨-, o, ho, hg⟩ := h.agent id a ha
  exact h.setAgent ht ho (by rwa [htenant, hsite])

theorem knows_give_self (w : World) (client token : ℕ) :
    (w.give client token).knows client = token :: w.knows client :=
  Function.update_self _ _ _

theorem knows_give_of_ne {client c : ℕ} (hc : c ≠ client) (token : ℕ) :
    (w.give client token).knows c = w.knows c :=
  Function.update_of_ne hc _ _

theorem mem_give {client token c t : ℕ} (ht : t ∈ (w.give client token).knows c) :
    t ∈ w.knows c ∨ c = client ∧ t = token := by
  by_cases hc : c = client
  · subst hc
    rw [knows_give_self] at ht
    rcases List.mem_cons.mp ht with heq | hmem
    · exact .inr ⟨rfl, heq⟩
    · exact .inl hmem
  · rw [knows_give_of_ne hc] at ht
    exact .inl ht

theorem le_give (w : World) (client token : ℕ) : w.Le (w.give client token) where
  knows c t ht := by
    by_cases hc : c = client
    · subst hc
      rw [knows_give_self]
      exact List.mem_cons_of_mem _ ht
    · rwa [knows_give_of_ne hc]
  minted _ _ h := h
  origin _ _ h := h
  grants _ _ _ h := h

/-- A token is given to the creator of its agent. -/
theorem Registered.give (h : w.Registered) {client token id : ℕ}
    (ht : w.minted token = some id) (hc : w.IsCreator client id) :
    (w.give client token).Registered where
  fresh := h.fresh
  origins := h.origins
  known c t hmem := by
    rcases mem_give hmem with hmem | ⟨-, rfl⟩
    · exact h.known c t hmem
    · exact (h.fresh t id ht).1
  secret c t hmem id' hid' := by
    rcases mem_give hmem with hmem | ⟨rfl, rfl⟩
    · exact h.secret c t hmem id' hid'
    · obtain rfl := Option.some.inj (ht.symm.trans hid')
      exact hc
  agent := h.agent

theorem Grants.mono_installTokens {tokens : ℕ → Option InstallToken}
    (hrow : ∀ key row, w.installTokens key = some row →
      ∃ row', tokens key = some row' ∧ row'.tenant = row.tenant ∧ row'.site = row.site)
    {key tenant : ℕ} {site : Option ℕ} (h : w.Grants key tenant site) :
    { w with installTokens := tokens }.Grants key tenant site := by
  rcases h with ⟨row, hr, rfl, rfl⟩ | hshared
  · obtain ⟨row', hr', ht, hs⟩ := hrow key row hr
    exact .inl ⟨row', hr', ht, hs⟩
  · exact .inr hshared

/-- Install tokens stay where they are. -/
theorem le_installTokens {tokens : ℕ → Option InstallToken}
    (hrow : ∀ key row, w.installTokens key = some row →
      ∃ row', tokens key = some row' ∧ row'.tenant = row.tenant ∧ row'.site = row.site) :
    w.Le { w with installTokens := tokens } where
  knows _ _ h := h
  minted _ _ h := h
  origin _ _ h := h
  grants _ _ _ h := h.mono_installTokens hrow

theorem Registered.installTokens (h : w.Registered) {tokens : ℕ → Option InstallToken}
    (hrow : ∀ key row, w.installTokens key = some row →
      ∃ row', tokens key = some row' ∧ row'.tenant = row.tenant ∧ row'.site = row.site) :
    { w with installTokens := tokens }.Registered where
  fresh := h.fresh
  origins := h.origins
  known := h.known
  secret := h.secret
  agent id a ha := by
    obtain ⟨ht, o, ho, hg⟩ := h.agent id a ha
    exact ⟨ht, o, ho, hg.mono_installTokens hrow⟩

/-- A row that is rewritten keeps its tenant and site. -/
theorem installTokens_update (w : World) (token : ℕ) {f : InstallToken → InstallToken}
    (hf : ∀ row, (f row).tenant = row.tenant ∧ (f row).site = row.site) (key : ℕ)
    (row : InstallToken) (hrow : w.installTokens key = some row) :
    ∃ row', Function.update w.installTokens token ((w.installTokens token).map f) key = some row' ∧
      row'.tenant = row.tenant ∧ row'.site = row.site := by
  by_cases hk : key = token
  · subst hk
    exact ⟨f row, by rw [Function.update_self, hrow, Option.map_some], hf row⟩
  · exact ⟨row, by rw [Function.update_of_ne hk, hrow], rfl, rfl⟩

/-- Time, and the states of the tenants. -/
theorem le_tenants (w : World) (now : ℤ) (active : ℕ → Bool) (count : ℕ) :
    w.Le { w with now := now, active := active, tenantCount := count } where
  knows _ _ h := h
  minted _ _ h := h
  origin _ _ h := h
  grants _ _ _ h := h

theorem Registered.tenants (h : w.Registered) (now : ℤ) (active : ℕ → Bool) (count : ℕ) :
    { w with now := now, active := active, tenantCount := count }.Registered :=
  ⟨h.fresh, h.origins, h.known, h.secret, h.agent⟩

theorem le_requests (w : World) (requests : List Request) :
    w.Le { w with requests := requests } where
  knows _ _ h := h
  minted _ _ h := h
  origin _ _ h := h
  grants _ _ _ h := h

theorem Registered.requests (h : w.Registered) (requests : List Request) :
    { w with requests := requests }.Registered :=
  ⟨h.fresh, h.origins, h.known, h.secret, h.agent⟩

/-! ### Requests -/

/-- The tables change, and no request goes on. -/
theorem Sound.of_le (h : w.Sound) (h' : w'.Registered) (hle : w.Le w')
    (hreq : w'.requests = w.requests) : w'.Sound where
  registered := h'
  presents r hr t ht := hle.knows _ _ (h.presents r (hreq ▸ hr) t ht)
  proper r hr := (h.proper r (hreq ▸ hr)).mono hle

/-- A request goes on. -/
theorem Sound.withStage (h : w.Sound) {i : ℕ} {r : Request} (hr : r ∈ w.requests) {stage : Stage}
    (hs : w.Proper r.client r.kind stage) : (w.withStage i r stage).Sound where
  registered := h.registered.requests _
  presents r' hr' t ht := by
    rcases List.mem_or_eq_of_mem_set hr' with hmem | rfl
    · exact h.presents r' hmem t ht
    · exact h.presents r hr t ht
  proper r' hr' := by
    refine Proper.mono (le_requests w _) ?_
    rcases List.mem_or_eq_of_mem_set hr' with hmem | rfl
    · exact h.proper r' hmem
    · exact hs

/-- The tables change, and a request goes on. -/
theorem Sound.advance (h : w.Sound) {i : ℕ} {r : Request} (hr : r ∈ w.requests)
    (h' : w'.Registered) (hle : w.Le w') (hreq : w'.requests = w.requests) {stage : Stage}
    (hs : w'.Proper r.client r.kind stage) :
    (w'.withStage i r stage).Sound ∧ w.Le (w'.withStage i r stage) :=
  ⟨(h.of_le h' hle hreq).withStage (hreq ▸ hr) hs, hle.trans (le_requests w' _)⟩

/-- Only a request goes on. -/
theorem Sound.stay (h : w.Sound) {i : ℕ} {r : Request} (hr : r ∈ w.requests) {stage : Stage}
    (hs : w.Proper r.client r.kind stage) :
    (w.withStage i r stage).Sound ∧ w.Le (w.withStage i r stage) :=
  h.advance hr h.registered (Le.refl w) rfl hs

/-- The client of a request that presents the token of an agent is the creator. -/
theorem Sound.isCreator (h : w.Sound) {r : Request} (hr : r ∈ w.requests) {t id : ℕ} {a : Agent}
    (ht : t ∈ r.kind.presents) (ha : w.agents id = some a) (hat : a.token.token = t) :
    w.IsCreator r.client id :=
  h.registered.secret _ t (h.presents r hr t ht) id (hat ▸ (h.registered.agent id a ha).1)

theorem token_of_matches {presented : Option ℕ} {a : Agent}
    (h : presentedAgentTokenMatches presented a = true) : a.token.token ∈ presented := by
  cases presented with
  | none => cases h
  | some p =>
    have h : a.token = .hmac p ∨ a.token = .sha256 p := by
      simpa [presentedAgentTokenMatches] using h
    rcases h with h | h <;> rw [h] <;> rfl

theorem agent_of_byToken {d : Digest} {id : ℕ} (h : w.byToken d = some id) {a : Agent}
    (ha : w.agents id = some a) : a.token = d := by
  have hfound := List.find?_some h
  rw [ha] at hfound
  have hboth : a.enabled = true ∧ a.token = d := by simpa using hfound
  exact hboth.2

section Step

variable {fnmatchcase : String → String → Bool} {lower : String → String}

theorem proper_lookUpInstallToken {client key : ℕ} {kind : Kind} (hk : kind.key = some key)
    (hostname : String) : w.Proper client kind (w.lookUpInstallToken key hostname) := by
  unfold lookUpInstallToken
  split
  · trivial
  · cases hrow : w.installTokens key with
    | none => trivial
    | some row => exact ⟨key, hk, .inl ⟨row, hrow, rfl, rfl⟩⟩

/-- The row that is committed has the tenant and the site of the row that was read. -/
theorem consumeInstallToken_ok {active : ℕ → Bool} {now : ℤ} {row row' : InstallToken}
    {hostname : String} (h : consumeInstallToken fnmatchcase active now row hostname = .ok row') :
    row' = { row with usedCount := row.usedCount + 1, lastUsedAt := some now } := by
  unfold consumeInstallToken at h
  split at h
  · cases h
  split at h
  · cases h
  split at h
  · cases h
  split at h
  · cases h
  exact (Except.ok.inj h).symm

theorem proper_trySharedKey {client key : ℕ} {kind : Kind} (hk : kind.key = some key) :
    w.Proper client kind (w.trySharedKey key) := by
  unfold trySharedKey
  split
  case isTrue hif =>
    simp only [Bool.and_eq_true, decide_eq_true_eq] at hif
    exact ⟨key, hk, .inr ⟨hif.1.1, hif.1.2, rfl, rfl⟩⟩
  case isFalse => trivial

/-- An agent that exists gets a new token only if its creator asks. -/
theorem Sound.lookUpAgent (h : w.Sound) {r : Request} (hr : r ∈ w.requests) {tenant : ℕ}
    {site : Option ℕ} (hg : ∃ key ∈ r.kind.key, w.Grants key tenant site) (hostname : String) :
    w.Proper r.client r.kind (w.lookUpAgent lower tenant site hostname r.kind.presents) := by
  unfold World.lookUpAgent
  cases w.byHostname lower tenant hostname with
  | none => exact hg
  | some id =>
    dsimp only
    cases ha : w.agents id with
    | none => exact hg
    | some a =>
      dsimp only
      split
      case isTrue hmatch => exact h.isCreator hr (token_of_matches hmatch) ha rfl
      case isFalse => trivial

/-- An agent is found only if its creator asks. -/
theorem Sound.findAgent (h : w.Sound) {r : Request} (hr : r ∈ w.requests) {d : Digest}
    (hd : d.token ∈ r.kind.presents) {migrate : Bool} {stage : Stage}
    (hstage : w.findAgent d migrate = some stage) : w.Proper r.client r.kind stage := by
  obtain ⟨id, hid, hmap⟩ := Option.bind_eq_some_iff.mp hstage
  obtain ⟨a, ha, rfl⟩ := Option.map_eq_some_iff.mp hmap
  have htoken : a.token = d := agent_of_byToken hid ha
  refine ⟨h.isCreator hr hd ha (by rw [htoken]), fun _ => ⟨d.token, hd, ?_⟩⟩
  exact htoken ▸ (h.registered.agent id a ha).1

theorem Sound.rotate (h : w.Sound) {i : ℕ} {r : Request} (hr : r ∈ w.requests) {id : ℕ}
    (hc : w.IsCreator r.client id) (row : Agent) (platform arch : String) :
    (w.rotate i r id row platform arch).Sound ∧ w.Le (w.rotate i r id row platform arch) := by
  unfold World.rotate
  cases ha : w.agents id with
  | none => exact h.stay hr trivial
  | some a =>
    have hlt : id < w.nextId := (h.registered.fresh _ _ (h.registered.agent id a ha).1).2
    have hmint := h.registered.mint hlt
    have hle := le_mint h.registered id
    refine h.advance hr ((hmint.rewriteAgent ha ?_ ?_ ?_).give (minted_mint w id) ?_)
      ((hle.trans (le_setAgent _ _ _)).trans (le_give _ _ _)) rfl ?_
    · exact minted_mint w id
    · rfl
    · rfl
    · exact hc
    · exact hc

theorem Sound.create (h : w.Sound) {i : ℕ} {r : Request} (hr : r ∈ w.requests) {key tenant : ℕ}
    {site : Option ℕ} (hg : w.Grants key tenant site) (hostname platform arch : String) :
    (w.create lower i r key tenant site hostname platform arch).Sound ∧
      w.Le (w.create lower i r key tenant site hostname platform arch) := by
  unfold World.create
  split
  · have ho : (w.newId r.client key).origin w.nextId = some ⟨r.client, key⟩ :=
      Function.update_self _ _ _
    have hmint := (h.registered.newId r.client key).mint (Nat.lt_succ_self w.nextId)
    have hminted := minted_mint (w.newId r.client key) w.nextId
    have hset := hmint.setAgent
      (a := ⟨tenant, site, hostname, .hmac w.nextToken, platform, arch, true, none⟩) hminted ho hg
    refine h.advance hr hset ?_ rfl ⟨hminted, key, ho⟩
    exact ((le_newId h.registered r.client key).trans
      (le_mint (h.registered.newId r.client key) w.nextId)).trans (le_setAgent _ _ _)
  · exact h.stay hr trivial

theorem Sound.handleReport (h : w.Sound) {i : ℕ} {r : Request} (hr : r ∈ w.requests)
    {token id : ℕ} {migrate : Bool} (hc : w.IsCreator r.client id)
    (hm : migrate = true → w.minted token = some id) (row : Agent)
    (hostname platform arch : Option String) :
    (w.handleReport lower i r token id row migrate hostname platform arch).Sound ∧
      w.Le (w.handleReport lower i r token id row migrate hostname platform arch) := by
  unfold World.handleReport
  cases ha : w.agents id with
  | none => exact h.stay hr trivial
  | some a =>
    dsimp only
    split
    · refine h.advance hr (h.registered.rewriteAgent ha ?_ ?_ ?_) (le_setAgent _ _ _) rfl ?_
      · cases migrate with
        | false => exact (h.registered.agent id a ha).1
        | true => exact hm rfl
      · rfl
      · rfl
      · exact hc
    · exact h.stay hr trivial

/-- A request that enrols. -/
theorem Sound.enrol (h : w.Sound) {i : ℕ} {r : Request} (hr : r ∈ w.requests) {key : ℕ}
    {hostname platform arch : String} {presented : Option ℕ}
    (hk : r.kind = .enrol key hostname platform arch presented)
    (hstep : w.enrol fnmatchcase lower i r key hostname platform arch presented = some w') :
    w'.Sound ∧ w.Le w' := by
  have hkey : r.kind.key = some key := by rw [hk]; rfl
  have hpresents : r.kind.presents = presented := by rw [hk]; rfl
  have hproper := h.proper r hr
  unfold World.enrol at hstep
  cases hs : r.stage with
  | received =>
    rw [hs] at hstep
    obtain rfl := Option.some.inj hstep
    exact h.stay hr (proper_lookUpInstallToken hkey hostname)
  | lookedUp row =>
    rw [hs] at hstep hproper
    obtain rfl := Option.some.inj hstep
    refine h.stay hr ?_
    cases hok : consumeInstallToken fnmatchcase w.active w.now row hostname with
    | error reason => trivial
    | ok row' =>
      obtain rfl := consumeInstallToken_ok hok
      exact hproper
  | consuming row =>
    rw [hs] at hstep hproper
    obtain rfl := Option.some.inj hstep
    have hrow := installTokens_update w key
      (f := fun t => { t with usedCount := row.usedCount, lastUsedAt := row.lastUsedAt })
      fun _ => ⟨rfl, rfl⟩
    have hle := le_installTokens hrow
    exact h.advance hr (h.registered.installTokens hrow) hle rfl (Proper.mono hle hproper)
  | refused =>
    rw [hs] at hstep
    obtain rfl := Option.some.inj hstep
    exact h.stay hr (proper_trySharedKey hkey)
  | authorized tenant site =>
    rw [hs] at hstep hproper
    obtain rfl := Option.some.inj hstep
    exact h.stay hr (hpresents ▸ h.lookUpAgent hr hproper hostname)
  | rotating id row =>
    rw [hs] at hstep hproper
    obtain rfl := Option.some.inj hstep
    exact h.rotate hr hproper row platform arch
  | creating tenant site =>
    rw [hs] at hstep hproper
    obtain rfl := Option.some.inj hstep
    obtain ⟨key', hkey', hg⟩ := hproper
    obtain rfl := Option.some.inj (hkey.symm.trans hkey')
    exact h.create hr hg hostname platform arch
  | created token id =>
    rw [hs] at hstep hproper
    dsimp only at hstep
    cases ha : w.agents id with
    | none =>
      rw [ha] at hstep
      obtain rfl := Option.some.inj hstep
      exact h.stay hr trivial
    | some a =>
      rw [ha] at hstep
      obtain rfl := Option.some.inj hstep
      exact h.advance hr (h.registered.give hproper.1 hproper.2) (le_give w r.client token) rfl
        hproper.2
  | legacy | found | reporting | answered =>
    rw [hs] at hstep
    cases hstep

/-- A request that reports. -/
theorem Sound.report (h : w.Sound) {i : ℕ} {r : Request} (hr : r ∈ w.requests) {token : ℕ}
    {hostname platform arch : Option String} (hk : r.kind = .report token hostname platform arch)
    (hstep : w.report lower i r token hostname platform arch = some w') :
    w'.Sound ∧ w.Le w' := by
  have hpresents : r.kind.presents = some token := by rw [hk]; rfl
  have hproper := h.proper r hr
  unfold World.report at hstep
  cases hs : r.stage with
  | received =>
    rw [hs] at hstep
    obtain rfl := Option.some.inj hstep
    refine h.stay hr ?_
    cases hfind : w.findAgent (.hmac token) false with
    | none => trivial
    | some stage => exact h.findAgent (d := .hmac token) hr hpresents hfind
  | legacy =>
    rw [hs] at hstep
    obtain rfl := Option.some.inj hstep
    refine h.stay hr ?_
    cases hfind : w.findAgent (.sha256 token) true with
    | none => trivial
    | some stage => exact h.findAgent (d := .sha256 token) hr hpresents hfind
  | found id row migrate =>
    rw [hs] at hstep hproper
    obtain rfl := Option.some.inj hstep
    refine h.stay hr ?_
    split
    · exact hproper
    · trivial
  | reporting id row migrate =>
    rw [hs] at hstep hproper
    obtain rfl := Option.some.inj hstep
    refine h.handleReport hr hproper.1 (fun hm => ?_) row hostname platform arch
    obtain ⟨t, ht, hid⟩ := hproper.2 hm
    obtain rfl := Option.some.inj (hpresents.symm.trans ht)
    exact hid
  | lookedUp | consuming | refused | authorized | rotating | creating | created | answered =>
    rw [hs] at hstep
    cases hstep

/-- A request arrives. -/
theorem Sound.send (h : w.Sound) {client : ℕ} {kind : Kind}
    (hk : ∀ t ∈ kind.presents, t ∈ w.knows client) :
    { w with requests := w.requests ++ [(⟨client, kind, .received⟩ : Request)] }.Sound where
  registered := h.registered.requests _
  presents r hr := by
    rcases List.mem_append.mp hr with hmem | hnew
    · exact h.presents r hmem
    · obtain rfl := List.mem_singleton.mp hnew
      exact hk
  proper r hr := by
    rcases List.mem_append.mp hr with hmem | hnew
    · exact (h.proper r hmem).mono (le_requests w _)
    · obtain rfl := List.mem_singleton.mp hnew
      trivial

/-- An agent is deleted. -/
theorem Registered.delete (h : w.Registered) (id : ℕ) :
    { w with agents := Function.update w.agents id none }.Registered := by
  refine h.agents fun id' a ha => ?_
  by_cases hid : id' = id
  · subst hid
    rw [Function.update_self] at ha
    cases ha
  · rw [Function.update_of_ne hid] at ha
    exact h.agent id' a ha

/-- **One event keeps the invariant**, and nothing that has been found out becomes false. -/
theorem Sound.step (h : w.Sound) {e : Event} (hstep : w.Step fnmatchcase lower e w') :
    w'.Sound ∧ w.Le w' := by
  have hreg := h.registered
  cases e with
  | wait t =>
    obtain ⟨-, rfl⟩ := made_of_guard hstep
    have hle := le_tenants w t w.active w.tenantCount
    exact ⟨h.of_le (hreg.tenants t w.active w.tenantCount) hle rfl, hle⟩
  | tenants active count =>
    obtain rfl := Option.some.inj hstep
    have hle := le_tenants w w.now active count
    exact ⟨h.of_le (hreg.tenants w.now active count) hle rfl, hle⟩
  | issue token row =>
    obtain ⟨hnone, rfl⟩ := made_of_guard hstep
    have hrow : ∀ key row', w.installTokens key = some row' →
        ∃ row'', Function.update w.installTokens token (some row) key = some row'' ∧
          row''.tenant = row'.tenant ∧ row''.site = row'.site := by
      intro key row' hkey
      have hne : key ≠ token := by
        rintro rfl
        cases hnone.symm.trans hkey
      exact ⟨row', by rw [Function.update_of_ne hne, hkey], rfl, rfl⟩
    exact ⟨h.of_le (hreg.installTokens hrow) (le_installTokens hrow) rfl, le_installTokens hrow⟩
  | revoke token =>
    obtain rfl := Option.some.inj hstep
    have hrow := installTokens_update w token
      (f := fun row => { row with revoked := true }) fun _ => ⟨rfl, rfl⟩
    exact ⟨h.of_le (hreg.installTokens hrow) (le_installTokens hrow) rfl, le_installTokens hrow⟩
  | delete id =>
    obtain rfl := Option.some.inj hstep
    exact ⟨h.of_le (hreg.delete id) (le_agents w _) rfl, le_agents w _⟩
  | send client kind =>
    obtain ⟨hk, rfl⟩ := made_of_guard hstep
    exact ⟨h.send hk, le_requests w _⟩
  | goOn i =>
    unfold World.Step World.step at hstep
    dsimp only at hstep
    cases hr : w.requests[i]? with
    | none =>
      rw [hr] at hstep
      cases hstep
    | some r =>
      have hmem := List.mem_of_getElem? hr
      rw [hr] at hstep
      dsimp only at hstep
      cases hk : r.kind with
      | enrol key hostname platform arch presented =>
        rw [hk] at hstep
        exact h.enrol hmem hk hstep
      | report token hostname platform arch =>
        rw [hk] at hstep
        exact h.report hmem hk hstep
  | fail i =>
    unfold World.Step World.step at hstep
    dsimp only at hstep
    cases hr : w.requests[i]? with
    | none =>
      rw [hr] at hstep
      cases hstep
    | some r =>
      rw [hr] at hstep
      obtain ⟨-, rfl⟩ := made_of_guard_not hstep
      exact h.stay (List.mem_of_getElem? hr) trivial

/-- An installation at a time when no request is under way. -/
theorem Registered.sound (h : w.Registered) (hnone : w.requests = []) : w.Sound where
  registered := h
  presents r hr := by simp [hnone] at hr
  proper r hr := by simp [hnone] at hr

/-- **Only the creator of an agent gets its tokens and reports as it**, in whatever order the
requests go on, and the agent stays in the tenant and at the site of the key with which it was
enrolled. Who has created an agent does not change. -/
theorem only_creator (h : w.Registered) (hnone : w.requests = []) {l : List Event}
    (hrun : Run (World.Step fnmatchcase lower) w l w') :
    (∀ r ∈ w'.requests, ∀ id,
      ((∃ token, r.stage = .answered (.enrolled token id)) ∨ r.stage = .answered (.reported id)) →
        w'.IsCreator r.client id) ∧
    (∀ id a, w'.agents id = some a → ∃ o, w'.origin id = some o ∧
      (∀ c, a.token.token ∈ w'.knows c → c = o.client) ∧ w'.Grants o.key a.tenant a.site) ∧
    ∀ id o, w.origin id = some o → w'.origin id = some o := by
  have hstart := h.sound hnone
  obtain ⟨hsound, hle⟩ := Run.invariant (I := fun v => v.Sound ∧ w.Le v)
    (fun v e v' hv hstep => ⟨(hv.1.step hstep).1, hv.2.trans (hv.1.step hstep).2⟩)
    hrun ⟨hstart, Le.refl w⟩
  refine ⟨fun r hr id hanswer => ?_, fun id a ha => ?_, hle.origin⟩
  · have hproper := hsound.proper r hr
    rcases hanswer with ⟨token, hstage⟩ | hstage
    · rw [hstage] at hproper
      exact hproper
    · rw [hstage] at hproper
      exact hproper
  · obtain ⟨ht, o, ho, hg⟩ := hsound.registered.agent id a ha
    refine ⟨o, ho, fun c hc => ?_, hg⟩
    obtain ⟨key, hkey⟩ := hsound.registered.secret c _ hc id ht
    obtain rfl := Option.some.inj (hkey.symm.trans ho)
    rfl

end Step

/-- An installation with one tenant, and the install token `7`. -/
def sample : World where
  now := 0
  active t := t = 1
  installTokens key := if key = 7 then some ⟨1, some 3, false, 100, none, 0, none⟩ else none
  sharedAllowed := false
  sharedKey := 0
  tenantCount := 1
  defaultSite := some 1
  agents _ := none
  nextId := 0
  nextToken := 0
  requests := []
  knows _ := []
  minted _ := none
  origin _ := none

theorem registered_sample : sample.Registered where
  fresh _ _ h := by cases h
  origins _ _ h := by cases h
  known _ _ h := by cases h
  secret _ _ h := by cases h
  agent _ _ h := by cases h

/-- One client enrols a host, and another one, with the same install token, may not enrol it too. -/
def sampleEvents : List Event :=
  [.send 1 (.enrol 7 "srv01" "linux" "amd64" none), .goOn 0, .goOn 0, .goOn 0, .goOn 0, .goOn 0,
    .goOn 0, .send 2 (.enrol 7 "SRV01" "linux" "amd64" none), .goOn 1, .goOn 1, .goOn 1, .goOn 1,
    .send 1 (.report 0 none none none), .goOn 2, .goOn 2, .goOn 2]

theorem sample_isSome :
    (sampleEvents.foldlM (World.step (fun _ _ => true) Text.asciiLower) sample).isSome := by
  decide +kernel

theorem only_creator_sample : ∃ w, Run (World.Step (fun _ _ => true) Text.asciiLower) sample
    sampleEvents w ∧ w.requests.map Request.stage = [.answered (.enrolled 0 0),
      .answered agentExists, .answered (.reported 0)] ∧
    ∀ r ∈ w.requests, r.stage = .answered (.reported 0) → w.IsCreator r.client 0 := by
  have hrun := Run.of_foldlM (Option.some_get sample_isSome).symm
  refine ⟨_, hrun, by decide +kernel, fun r hr hstage => ?_⟩
  exact (only_creator registered_sample rfl hrun).1 r hr 0 (.inr hstage)

end World

end Nodeglow.Enrolment
