import Mathlib.Data.Finset.Option
import Mathlib.Data.Rat.Defs

/-!
# The host cache of the syslog service

Syslog messages are attributed to hosts by keys: the name or address that a host is configured by,
its display name, the address that its name resolves to, and its short name, where it is
unambiguous. A refresh reads the hosts of all tenants and files each of them under its keys, per
tenant and per site, and notes of each key the sites that use it. A message is looked up by its host
name, its source address, and the reverse DNS name of that. Where a site is given its hosts come
first; the other hosts of the tenant follow for those keys that cannot belong to another site.

What the standard library says of texts and addresses is a parameter (`Python`), and so is what the
resolver answers. The allowlists, which the refresh builds beside the caches, are left out.

Source: `backend/services/syslog.py`, lines 309–354, 405–590.
-/

namespace Nodeglow.Syslog

abbrev TenantId := ℕ

abbrev SiteId := ℕ

abbrev HostId := ℕ

/-- What is used of the standard library. -/
structure Python where
  /-- `str.lower`. -/
  lower : String → String
  /-- `ipaddress.ip_address`, if the text is an address: the value of its `is_global`. -/
  isGlobal : String → Option Bool

/-- `PingHost`. -/
structure PingHost where
  id : HostId
  name : String
  hostname : String
  tenantId : TenantId
  siteId : Option SiteId
  deriving DecidableEq, Repr

/-- What a refresh reads. -/
structure Snapshot where
  hosts : List PingHost
  /-- The identifiers are the primary key. -/
  nodup : (hosts.map PingHost.id).Nodup
  activeTenantIds : List TenantId
  defaultSiteId : TenantId → Option SiteId
  /-- The answers of the resolver. -/
  resolved : String → Option String

/-- The characters before the first `c`. -/
def beforeChar (c : Char) (s : String) : String := String.ofList (s.toList.takeWhile (· ≠ c))

/-- The text without the given start. -/
def removeStart (start s : String) : String :=
  if start.toList.isPrefixOf s.toList then String.ofList (s.toList.drop start.length) else s

/-- `_raw_host`. -/
def rawHost (hostname : String) : String :=
  beforeChar ':' (beforeChar '/' (removeStart "http://" (removeStart "https://" hostname)))

/-- `_host_site`. -/
def Snapshot.hostSite (snap : Snapshot) (h : PingHost) : Option SiteId :=
  match h.siteId with
  | some site => some site
  | none => snap.defaultSiteId h.tenantId

/-! ### The refresh -/

/-- The caches while the hosts are filed. -/
structure Filing where
  cache : TenantId → String → Option HostId
  siteCache : TenantId → SiteId → String → Option HostId
  /-- The sites that use a key. -/
  keySites : TenantId → String → Finset (Option SiteId)

namespace Filing

def empty : Filing where
  cache _ _ := none
  siteCache _ _ _ := none
  keySites _ _ := ∅

/-- `_file`. -/
def file (f : Filing) (tenant : TenantId) (site : Option SiteId) (key : String) (id : HostId) :
    Filing where
  cache t k := if t = tenant ∧ k = key then some id else f.cache t k
  siteCache t s k := if t = tenant ∧ some s = site ∧ k = key then some id else f.siteCache t s k
  keySites t k := if t = tenant ∧ k = key then insert site (f.keySites t k) else f.keySites t k

end Filing

section Refresh

variable (py : Python) (snap : Snapshot)

/-- The keys that every host is filed under: its hostname, its name and the host in its hostname. -/
def directKeys (h : PingHost) : List String :=
  py.lower h.hostname :: (if h.name = "" then [] else [py.lower h.name]) ++
    [py.lower (rawHost h.hostname)]

/-- A host is filed under some keys. -/
def fileKeys (f : Filing) (h : PingHost) (keys : List String) : Filing :=
  keys.foldl (fun f key => f.file h.tenantId (snap.hostSite h) key h.id) f

/-- The first label of a name with several, in lower case. -/
def shortName (name : String) : Option String :=
  if name = "" ∨ '.' ∉ name.toList ∨ (name.toList.any fun c => c ∈ [' ', '/', ':']) ∨
      (py.isGlobal name).isSome then none
  else
    let label := py.lower (beforeChar '.' name)
    if label = "" then none else some label

def shortNames (h : PingHost) : List String :=
  [rawHost h.hostname, h.name].filterMap (shortName py)

/-- The short names of the hosts, with their tenants. -/
def shortKeys : List (TenantId × String) :=
  (snap.hosts.flatMap fun h => (shortNames py h).map fun label => (h.tenantId, label)).dedup

/-- The hosts of a tenant with a short name. -/
def owners (tenant : TenantId) (label : String) : List PingHost :=
  snap.hosts.filter fun h => h.tenantId = tenant ∧ label ∈ shortNames py h

/-- A short name is filed, unless it is a key already or several hosts share it. -/
def fileShort (f : Filing) (key : TenantId × String) : Filing :=
  if (f.cache key.1 key.2).isSome ∨
      ((owners py snap key.1 key.2).map PingHost.id).toFinset.card ≠ 1 then f
  else (owners py snap key.1 key.2).foldl (fun f h => fileKeys snap f h [key.2]) f

/-- The address that a host resolves to. -/
def addresses (h : PingHost) : List String :=
  match snap.resolved (rawHost h.hostname) with
  | some ip => if ip = "" then [] else [ip]
  | none => []

/-- All hosts are filed. -/
def filed : Filing :=
  let direct := snap.hosts.foldl (fun f h => fileKeys snap f h (directKeys py h)) .empty
  let short := (shortKeys py snap).foldl (fileShort py snap) direct
  snap.hosts.foldl (fun f h => fileKeys snap f h (addresses snap h)) short

end Refresh

/-- The caches. -/
structure HostCaches where
  /-- The keys of `_host_cache`. -/
  tenantIds : List TenantId
  hostCache : TenantId → String → Option HostId
  siteHostCache : TenantId → SiteId → String → Option HostId
  crossSiteKeys : TenantId → String → Bool
  refreshedAt : ℚ
  /-- What the caches were built from. -/
  read : Option Snapshot

/-- `reset_host_cache`. -/
def HostCaches.reset : HostCaches where
  tenantIds := []
  hostCache _ _ := none
  siteHostCache _ _ _ := none
  crossSiteKeys _ _ := false
  refreshedAt := 0
  read := none

/-- `_HOST_CACHE_TTL`. -/
def hostCacheTtl : ℚ := 120

/-- `_refresh_host_cache`; a refresh that fails reads nothing. -/
def refreshHostCache (py : Python) (now : ℚ) (snap : Option Snapshot) (st : HostCaches) :
    HostCaches :=
  if now - st.refreshedAt < hostCacheTtl ∧ st.tenantIds ≠ [] then st
  else match snap with
    | none => st
    | some snap =>
      let f := filed py snap
      { tenantIds := snap.activeTenantIds ++ snap.hosts.map PingHost.tenantId
        hostCache := f.cache
        siteHostCache := f.siteCache
        crossSiteKeys := fun t key => 1 < (f.keySites t key).card
        refreshedAt := now
        read := some snap }

/-! ### The lookup -/

/-- What a message is looked up by. -/
structure Query where
  sourceIp : Option String
  hostname : Option String
  /-- Whether the reverse DNS name of the source is tried. -/
  rdns : Bool

section Lookup

variable (py : Python) (rdnsCache : String → Option String)

/-- The text, unless it is missing or empty. -/
def nonempty (s : Option String) : Option String := s.filter (· ≠ "")

/-- The keys that `_lookup` tries, in this order: the host name, the source address, and the reverse
DNS name, of which the first label is tried as well. -/
def Query.keys (q : Query) : List String :=
  ((nonempty q.hostname).map py.lower).toList ++
    (match nonempty q.sourceIp with
    | none => []
    | some ip => [ip, py.lower ip] ++
        match nonempty (if q.rdns then rdnsCache ip else none) with
        | none => []
        | some name => py.lower name ::
            if '.' ∈ name.toList then [py.lower (beforeChar '.' name)] else [])

/-- `hit`. -/
def hit (cache : String → Option HostId) (accept : String → Bool) (key : String) : Option HostId :=
  if key = "" then none
  else match cache key with
    | none => none
    | some id => if accept key then some id else none

/-- `_lookup`. -/
def lookup (cache : String → Option HostId) (accept : String → Bool) (q : Query) : Option HostId :=
  (q.keys py rdnsCache).findSome? (hit cache accept)

/-- `_site_fallback_ok`. -/
def siteFallbackOk (st : HostCaches) (tenant : TenantId) (key : String) : Bool :=
  if st.crossSiteKeys tenant key then false
  else match py.isGlobal key with
    | none => true
    | some global => global

/-- `_resolve_host_id`. -/
def resolveHostId (st : HostCaches) (q : Query) (tenant : TenantId) (site : Option SiteId) :
    Option HostId :=
  match site with
  | none => lookup py rdnsCache (st.hostCache tenant) (fun _ => true) q
  | some site =>
      match lookup py rdnsCache (st.siteHostCache tenant site) (fun _ => true) q with
      | some id => some id
      | none => lookup py rdnsCache (st.hostCache tenant) (siteFallbackOk py st tenant) q

/-- The first key that hits. -/
def lookupKey (cache : String → Option HostId) (accept : String → Bool) (q : Query) :
    Option String :=
  (q.keys py rdnsCache).find? fun key => (hit cache accept key).isSome

/-- The key that a message has been matched by. -/
def matchedKey (st : HostCaches) (q : Query) (tenant : TenantId) (site : Option SiteId) :
    Option String :=
  match site with
  | none => lookupKey py rdnsCache (st.hostCache tenant) (fun _ => true) q
  | some site =>
      match lookupKey py rdnsCache (st.siteHostCache tenant site) (fun _ => true) q with
      | some key => some key
      | none => lookupKey py rdnsCache (st.hostCache tenant) (siteFallbackOk py st tenant) q

end Lookup

/-! ### Keys and addresses -/

section Keys

variable (py : Python) (snap : Snapshot)

/-- A private address: one that is not global. -/
def IsPrivate (key : String) : Prop := py.isGlobal key = some false

/-- A key of a host. A short name is a key if it is not a direct key of a host of the tenant, and no
other host of the tenant has it. -/
def HasKey (h : PingHost) (key : String) : Prop :=
  key ∈ directKeys py h ∨ key ∈ addresses snap h ∨
    (key ∈ shortNames py h ∧ ∀ h' ∈ snap.hosts, h'.tenantId = h.tenantId →
      key ∉ directKeys py h' ∧ (key ∈ shortNames py h' → h' = h))

end Keys

end Nodeglow.Syslog
