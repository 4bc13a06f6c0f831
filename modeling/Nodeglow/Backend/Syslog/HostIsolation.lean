import Nodeglow.Backend.Syslog.HostCache
import Nodeglow.Foundation.Text

/-!
# Isolation of tenants and sites in the host cache

A message is matched to a host of its tenant. A host of another site than the given one is matched
only by a key that is not a private address and that no other site of the tenant uses
(`resolveHostId_isolated`).

Each entry of the caches comes from a host of its tenant, and of its site in the cache of a site;
and the site of that host is among those that use the key. In the other direction, every host with a
key has its site noted for it. So where one site is noted for a key, all hosts with it are of that
site.

## Main results

* `sound_filed`, `mem_keySites_filed` — what a refresh files.

Source: `backend/services/syslog.py`, lines 347–354, 418–530 and 540–590.
-/

namespace Nodeglow.Syslog

/-- The entries of the caches come from hosts `h` with keys `k` such that `Q h k`. -/
structure Filing.Sound (snap : Snapshot) (Q : PingHost → String → Prop) (f : Filing) : Prop where
  cache : ∀ t k id, f.cache t k = some id → ∃ h ∈ snap.hosts, h.id = id ∧ h.tenantId = t ∧ Q h k ∧
    snap.hostSite h ∈ f.keySites t k
  siteCache : ∀ t s k id, f.siteCache t s k = some id → ∃ h ∈ snap.hosts, h.id = id ∧
    h.tenantId = t ∧ snap.hostSite h = some s

section Filing

variable {py : Python} {snap : Snapshot} {Q Q' : PingHost → String → Prop} {f : Filing}
  {h : PingHost} {key : String} {keys : List String} {hosts : List PingHost} {t : TenantId}

theorem sound_empty : Filing.empty.Sound snap Q :=
  ⟨fun _ _ _ hid => (nomatch hid), fun _ _ _ _ hid => (nomatch hid)⟩

theorem Filing.Sound.mono (hf : f.Sound snap Q) (hQ : ∀ h k, Q h k → Q' h k) : f.Sound snap Q' := by
  refine ⟨fun t k id hid => ?_, hf.siteCache⟩
  obtain ⟨h, hmem, heq, htenant, hq, hsite⟩ := hf.cache t k id hid
  exact ⟨h, hmem, heq, htenant, hQ h k hq, hsite⟩

/-! ### One entry -/

theorem keySites_subset_file (f : Filing) (t t' : TenantId) (site : Option SiteId)
    (k key : String) (id : HostId) :
    f.keySites t k ⊆ (f.file t' site key id).keySites t k := by
  change _ ⊆ if t = t' ∧ k = key then insert site (f.keySites t k) else f.keySites t k
  split_ifs
  · exact Finset.subset_insert _ _
  · exact Finset.Subset.refl _

/-- **An entry** for a host of the snapshot. -/
theorem Filing.Sound.file (hf : f.Sound snap Q) (hh : h ∈ snap.hosts) (hQ : Q h key) :
    (f.file h.tenantId (snap.hostSite h) key h.id).Sound snap Q := by
  refine ⟨fun t k id hid => ?_, fun t s k id hid => ?_⟩
  · change (if t = h.tenantId ∧ k = key then some h.id else f.cache t k) = some id at hid
    split_ifs at hid with hkey
    · obtain ⟨rfl, rfl⟩ := hkey
      refine ⟨h, hh, Option.some.inj hid, rfl, hQ, ?_⟩
      change _ ∈ if h.tenantId = h.tenantId ∧ k = k then _ else _
      rw [if_pos ⟨rfl, rfl⟩]
      exact Finset.mem_insert_self _ _
    · obtain ⟨h', hmem, heq, htenant, hq, hsite⟩ := hf.cache t k id hid
      exact ⟨h', hmem, heq, htenant, hq, keySites_subset_file _ _ _ _ _ _ _ hsite⟩
  · change (if t = h.tenantId ∧ some s = snap.hostSite h ∧ k = key then some h.id
      else f.siteCache t s k) = some id at hid
    split_ifs at hid with hkey
    · obtain ⟨rfl, hsite, rfl⟩ := hkey
      exact ⟨h, hh, Option.some.inj hid, rfl, hsite.symm⟩
    · exact hf.siteCache t s k id hid

/-! ### The keys of a host -/

theorem fileKeys_cons (f : Filing) (h : PingHost) (key : String) (keys : List String) :
    fileKeys snap f h (key :: keys) =
      fileKeys snap (f.file h.tenantId (snap.hostSite h) key h.id) h keys := rfl

theorem Filing.Sound.fileKeys (hf : f.Sound snap Q) (hh : h ∈ snap.hosts)
    (hQ : ∀ key ∈ keys, Q h key) : (Syslog.fileKeys snap f h keys).Sound snap Q := by
  induction keys generalizing f with
  | nil => exact hf
  | cons key keys ih =>
    obtain ⟨hkey, hkeys⟩ := List.forall_mem_cons.mp hQ
    exact ih (hf.file hh hkey) hkeys

theorem keySites_subset_fileKeys (f : Filing) (h : PingHost) (keys : List String) (t : TenantId)
    (k : String) : f.keySites t k ⊆ (fileKeys snap f h keys).keySites t k := by
  induction keys generalizing f with
  | nil => exact Finset.Subset.refl _
  | cons key keys ih => exact (keySites_subset_file f _ _ _ _ _ _).trans (ih _)

/-- The site of a host is noted for its keys. -/
theorem mem_keySites_fileKeys (f : Filing) (hkey : key ∈ keys) :
    snap.hostSite h ∈ (fileKeys snap f h keys).keySites h.tenantId key := by
  induction keys generalizing f with
  | nil => cases hkey
  | cons key' keys ih =>
    rw [fileKeys_cons]
    rcases List.mem_cons.mp hkey with rfl | hkey
    · refine keySites_subset_fileKeys _ _ _ _ _ ?_
      change _ ∈ if h.tenantId = h.tenantId ∧ key = key then _ else _
      rw [if_pos ⟨rfl, rfl⟩]
      exact Finset.mem_insert_self _ _
    · exact ih _ hkey

/-! ### All hosts -/

theorem Filing.Sound.foldl {keysOf : PingHost → List String} (hf : f.Sound snap Q)
    (hhosts : ∀ h ∈ hosts, h ∈ snap.hosts) (hQ : ∀ h ∈ hosts, ∀ key ∈ keysOf h, Q h key) :
    (hosts.foldl (fun f h => Syslog.fileKeys snap f h (keysOf h)) f).Sound snap Q := by
  induction hosts generalizing f with
  | nil => exact hf
  | cons h hosts ih =>
    obtain ⟨hh, hhosts⟩ := List.forall_mem_cons.mp hhosts
    obtain ⟨hQh, hQ⟩ := List.forall_mem_cons.mp hQ
    exact ih (hf.fileKeys hh hQh) hhosts hQ

theorem keySites_subset_foldl (f : Filing) (hosts : List PingHost)
    (keysOf : PingHost → List String) (t : TenantId) (k : String) :
    f.keySites t k ⊆ (hosts.foldl (fun f h => fileKeys snap f h (keysOf h)) f).keySites t k := by
  induction hosts generalizing f with
  | nil => exact Finset.Subset.refl _
  | cons h hosts ih => exact (keySites_subset_fileKeys f h _ t k).trans (ih _)

theorem mem_keySites_foldl (f : Filing) {keysOf : PingHost → List String} (hh : h ∈ hosts)
    (hkey : key ∈ keysOf h) : snap.hostSite h ∈
      (hosts.foldl (fun f h => fileKeys snap f h (keysOf h)) f).keySites h.tenantId key := by
  induction hosts generalizing f with
  | nil => cases hh
  | cons h' hosts ih =>
    rcases List.mem_cons.mp hh with rfl | hh
    · exact keySites_subset_foldl _ hosts keysOf _ _ (mem_keySites_fileKeys f hkey)
    · exact ih _ hh

/-! ### Short names -/

/-- The owners of a short name are hosts of its tenant. -/
theorem mem_owners {h : PingHost} {label : String} (hh : h ∈ owners py snap t label) :
    h ∈ snap.hosts ∧ h.tenantId = t ∧ label ∈ shortNames py h := by
  obtain ⟨hh, howner⟩ := List.mem_filter.mp hh
  exact ⟨hh, by simpa using howner⟩

theorem Filing.Sound.fileShort (hf : f.Sound snap fun _ _ => True) (key : TenantId × String) :
    (Syslog.fileShort py snap f key).Sound snap fun _ _ => True := by
  unfold Syslog.fileShort
  split_ifs
  · exact hf
  · exact hf.foldl (fun h hh => (mem_owners hh).1) fun _ _ _ _ => trivial

theorem keySites_subset_fileShort (f : Filing) (key : TenantId × String) (t : TenantId)
    (k : String) : f.keySites t k ⊆ (fileShort py snap f key).keySites t k := by
  unfold Syslog.fileShort
  split_ifs
  · exact Finset.Subset.refl _
  · exact keySites_subset_foldl _ _ (fun _ => [key.2]) _ _

theorem keySites_subset_foldl_fileShort (f : Filing) (keys : List (TenantId × String))
    (t : TenantId) (k : String) :
    f.keySites t k ⊆ (keys.foldl (fileShort py snap) f).keySites t k := by
  induction keys generalizing f with
  | nil => exact Finset.Subset.refl _
  | cons key keys ih => exact (keySites_subset_fileShort f key t k).trans (ih _)

theorem Filing.Sound.foldl_fileShort (hf : f.Sound snap fun _ _ => True)
    (keys : List (TenantId × String)) :
    (keys.foldl (Syslog.fileShort py snap) f).Sound snap fun _ _ => True := by
  induction keys generalizing f with
  | nil => exact hf
  | cons key keys ih => exact ih (hf.fileShort key)

/-- The entries of other keys stay when owners are filed under a short name. -/
theorem cache_foldl_of_ne (f : Filing) {label : String} (hosts : List PingHost)
    (hne : ∀ h ∈ hosts, (t, key) ≠ (h.tenantId, label)) :
    (hosts.foldl (fun f h => fileKeys snap f h [label]) f).cache t key = f.cache t key := by
  induction hosts generalizing f with
  | nil => rfl
  | cons h hosts ih =>
    obtain ⟨hh, hhosts⟩ := List.forall_mem_cons.mp hne
    rw [List.foldl_cons, ih _ hhosts]
    exact if_neg fun heq => hh (Prod.ext heq.1 heq.2)

theorem cache_fileShort_of_ne (f : Filing) {key' : TenantId × String} (hne : (t, key) ≠ key') :
    (fileShort py snap f key').cache t key = f.cache t key := by
  unfold Syslog.fileShort
  split_ifs
  · rfl
  · refine cache_foldl_of_ne f _ fun h hh => ?_
    rw [(mem_owners hh).2.1]
    exact hne

/-- **A short name** that is no key yet, and that one host has, is filed. -/
theorem mem_keySites_foldl_fileShort {keys : List (TenantId × String)}
    (hkeys : (h.tenantId, key) ∈ keys) (hcache : f.cache h.tenantId key = none)
    (hh : h ∈ owners py snap h.tenantId key)
    (hunique : ∀ h' ∈ owners py snap h.tenantId key, h' = h) :
    snap.hostSite h ∈ (keys.foldl (fileShort py snap) f).keySites h.tenantId key := by
  induction keys generalizing f with
  | nil => cases hkeys
  | cons key' keys ih =>
    by_cases hkey : (h.tenantId, key) = key'
    · subst hkey
      refine keySites_subset_foldl_fileShort _ keys _ _ ?_
      have hids : ((owners py snap h.tenantId key).map PingHost.id).toFinset = {h.id} := by
        ext id
        rw [List.mem_toFinset, List.mem_map, Finset.mem_singleton]
        constructor
        · rintro ⟨h', hmem, rfl⟩
          rw [hunique h' hmem]
        · rintro rfl
          exact ⟨h, hh, rfl⟩
      rw [Syslog.fileShort, if_neg (by rw [hcache, hids]; simp)]
      exact mem_keySites_foldl f hh (List.mem_singleton_self key)
    · refine ih ((List.mem_cons.mp hkeys).resolve_left hkey) ?_
      rw [cache_fileShort_of_ne f hkey]
      exact hcache

/-! ### What a refresh files -/

/-- The hosts filed under their direct keys. -/
theorem sound_direct (py : Python) (snap : Snapshot) :
    (snap.hosts.foldl (fun f h => fileKeys snap f h (directKeys py h)) .empty).Sound snap
      fun h key => key ∈ directKeys py h :=
  sound_empty.foldl (fun _ hh => hh) fun _ _ _ hkey => hkey

/-- **Every entry** comes from a host. -/
theorem sound_filed (py : Python) (snap : Snapshot) :
    (filed py snap).Sound snap fun _ _ => True :=
  (((sound_direct py snap).mono fun _ _ _ => trivial).foldl_fileShort _).foldl (fun _ hh => hh)
    fun _ _ _ _ => trivial

/-- **Every host** has its site noted for its keys. -/
theorem mem_keySites_filed (hh : h ∈ snap.hosts) (hkey : HasKey py snap h key) :
    snap.hostSite h ∈ (filed py snap).keySites h.tenantId key := by
  unfold filed
  obtain hdirect | haddress | ⟨hshort, hunique⟩ := hkey
  · refine keySites_subset_foldl _ _ _ _ _ (keySites_subset_foldl_fileShort _ _ _ _ ?_)
    exact mem_keySites_foldl .empty hh hdirect
  · exact mem_keySites_foldl _ hh haddress
  · refine keySites_subset_foldl _ _ _ _ _ ?_
    refine mem_keySites_foldl_fileShort ?_ ?_ ?_ ?_
    · rw [shortKeys, List.mem_dedup, List.mem_flatMap]
      exact ⟨h, hh, List.mem_map.mpr ⟨key, hshort, rfl⟩⟩
    · -- No host of the tenant has it as a direct key.
      rw [Option.eq_none_iff_forall_ne_some]
      intro id hid
      obtain ⟨h', hmem, -, htenant, hdirect, -⟩ := (sound_direct py snap).cache _ _ _ hid
      exact (hunique h' hmem htenant).1 hdirect
    · exact List.mem_filter.mpr ⟨hh, by simpa using hshort⟩
    · intro h' hmem
      obtain ⟨hmem, htenant, hshort'⟩ := mem_owners hmem
      exact (hunique h' hmem htenant).2 hshort'

end Filing

/-! ### The lookup -/

section Lookup

variable {py : Python} {rdnsCache : String → Option String} {cache : String → Option HostId}
  {accept : String → Bool} {q : Query} {id : HostId} {key : String}

/-- What is found is found by the first element for which something is found. -/
theorem exists_find?_of_findSome? {α β : Type} {g : α → Option β} {l : List α} {b : β}
    (h : l.findSome? g = some b) :
    ∃ a, l.find? (fun a => (g a).isSome) = some a ∧ g a = some b := by
  induction l with
  | nil => cases h
  | cons a l ih =>
    rw [List.findSome?_cons] at h
    rw [List.find?_cons]
    cases hg : g a with
    | some c =>
      rw [hg] at h
      exact ⟨a, rfl, hg.trans h⟩
    | none =>
      rw [hg] at h
      exact ih h

theorem find?_isSome_eq_none {α β : Type} {g : α → Option β} {l : List α}
    (h : l.findSome? g = none) : l.find? (fun a => (g a).isSome) = none := by
  rw [List.find?_eq_none]
  intro a ha
  rw [List.findSome?_eq_none_iff.mp h a ha]
  exact Bool.false_ne_true

theorem of_hit (h : hit cache accept key = some id) : cache key = some id ∧ accept key = true := by
  unfold hit at h
  split at h
  · cases h
  · split at h
    · cases h
    · next hid =>
      obtain ⟨haccept, heq⟩ := Option.ite_none_right_eq_some.mp h
      exact ⟨hid.trans heq, haccept⟩

/-- The key of a match is one of the keys that are tried. -/
theorem mem_keys_of_matchedKey {st : HostCaches} {tenant : TenantId} {site : Option SiteId}
    (h : matchedKey py rdnsCache st q tenant site = some key) : key ∈ q.keys py rdnsCache := by
  unfold matchedKey at h
  split at h
  · exact List.mem_of_find?_eq_some h
  · split at h
    · next hfirst =>
      obtain rfl := Option.some.inj h
      exact List.mem_of_find?_eq_some hfirst
    · exact List.mem_of_find?_eq_some h

/-- A query by the source address alone. -/
theorem keys_of_sourceIp {ip : String} (hq : q.sourceIp = some ip) (hhostname : q.hostname = none)
    (hrdns : q.rdns = false) : ∀ key ∈ q.keys py rdnsCache, key = ip ∨ key = py.lower ip := by
  intro key hkey
  rw [Query.keys, hhostname, hq, hrdns] at hkey
  by_cases hip : ip = ""
  · have hnone : nonempty (some ip) = none := by simp [nonempty, hip]
    rw [hnone] at hkey
    exact nomatch hkey
  · have hsome : nonempty (some ip) = some ip := by simp [nonempty, hip]
    rw [hsome] at hkey
    simpa [nonempty] using hkey

/-- A key that passes the check of the tenant-wide lookup. -/
theorem of_siteFallbackOk {st : HostCaches} {tenant : TenantId}
    (h : siteFallbackOk py st tenant key = true) :
    st.crossSiteKeys tenant key = false ∧ ¬ IsPrivate py key := by
  unfold siteFallbackOk at h
  split_ifs at h with hcross
  refine ⟨by simpa using hcross, fun hprivate => ?_⟩
  rw [hprivate] at h
  cases h

end Lookup

/-! ### After refreshes -/

/-- The caches after some refreshes, each at a time and with what it reads. -/
def afterRefreshes (py : Python) (refreshes : List (ℚ × Option Snapshot)) : HostCaches :=
  refreshes.foldl (fun st r => refreshHostCache py r.1 r.2 st) .reset

/-- The caches are those of the hosts that were read. -/
structure HostCaches.Built (py : Python) (st : HostCaches) : Prop where
  none : st.read = none → (∀ t k, st.hostCache t k = none) ∧ ∀ t s k, st.siteHostCache t s k = none
  some : ∀ snap, st.read = some snap → st.hostCache = (filed py snap).cache ∧
    st.siteHostCache = (filed py snap).siteCache ∧
      ∀ t k, st.crossSiteKeys t k = decide (1 < ((filed py snap).keySites t k).card)

theorem built_refreshHostCache {py : Python} {st : HostCaches} (h : st.Built py) (now : ℚ)
    (snap : Option Snapshot) : (refreshHostCache py now snap st).Built py := by
  unfold refreshHostCache
  split_ifs
  · exact h
  · cases snap with
    | none => exact h
    | some snap =>
      refine ⟨nofun, fun snap' heq => ?_⟩
      obtain rfl := Option.some.inj heq
      exact ⟨rfl, rfl, fun _ _ => rfl⟩

theorem built_afterRefreshes (py : Python) (refreshes : List (ℚ × Option Snapshot)) :
    (afterRefreshes py refreshes).Built py := by
  unfold afterRefreshes
  have hreset : HostCaches.reset.Built py := ⟨fun _ => ⟨fun _ _ => rfl, fun _ _ _ => rfl⟩, nofun⟩
  generalize HostCaches.reset = st at hreset
  induction refreshes generalizing st with
  | nil => exact hreset
  | cons r refreshes ih => exact ih _ (built_refreshHostCache hreset r.1 r.2)

/-- Where one site is noted for a key, all hosts with the key are of that site. -/
theorem hostSite_eq_of_card_le {py : Python} {snap : Snapshot} {h h' : PingHost} {key : String}
    (hcard : ¬ 1 < ((filed py snap).keySites h.tenantId key).card)
    (hsite : snap.hostSite h ∈ (filed py snap).keySites h.tenantId key) (hh' : h' ∈ snap.hosts)
    (htenant : h'.tenantId = h.tenantId) (hkey : HasKey py snap h' key) :
    snap.hostSite h' = snap.hostSite h := by
  have hsite' := mem_keySites_filed hh' hkey
  rw [htenant] at hsite'
  exact Finset.card_le_one.mp (not_lt.mp hcard) _ hsite' _ hsite

/-- **A message is matched to a host of its tenant.** If the host is of another site than the given
one, the key that it was matched by is not a private address, and every host of the tenant with that
key is of the same site. A private source address alone is matched to a host of the given site. -/
theorem resolveHostId_isolated (py : Python) (refreshes : List (ℚ × Option Snapshot))
    (rdnsCache : String → Option String) (q : Query) (tenant : TenantId) (site : Option SiteId)
    {id : HostId}
    (h : resolveHostId py rdnsCache (afterRefreshes py refreshes) q tenant site = some id) :
    ∃ snap, (afterRefreshes py refreshes).read = some snap ∧ ∃ host ∈ snap.hosts, host.id = id ∧
      host.tenantId = tenant ∧ ∀ s, site = some s →
        (snap.hostSite host ≠ some s →
          ∃ key, matchedKey py rdnsCache (afterRefreshes py refreshes) q tenant site = some key ∧
            ¬ IsPrivate py key ∧ ∀ other ∈ snap.hosts, other.tenantId = tenant →
              HasKey py snap other key → snap.hostSite other = snap.hostSite host) ∧
        (∀ ip, q.sourceIp = some ip → q.hostname = none → q.rdns = false → IsPrivate py ip →
          IsPrivate py (py.lower ip) → snap.hostSite host = some s) := by
  have hbuilt := built_afterRefreshes py refreshes
  generalize afterRefreshes py refreshes = st at h hbuilt ⊢
  cases hread : st.read with
  | none =>
    obtain ⟨hcache, hsiteCache⟩ := hbuilt.none hread
    have hnone {accept : String → Bool} {c : String → Option HostId} (hc : ∀ k, c k = none) :
        lookup py rdnsCache c accept q = none := by
      rw [lookup, List.findSome?_eq_none_iff]
      intro key _
      simp [hit, hc]
    unfold resolveHostId at h
    cases site with
    | none =>
      rw [hnone (hcache tenant)] at h
      cases h
    | some s =>
      simp only [hnone (hsiteCache tenant s), hnone (hcache tenant)] at h
      cases h
  | some snap =>
    obtain ⟨hcache, hsiteCache, hcross⟩ := hbuilt.some snap hread
    have hsound := sound_filed py snap
    refine ⟨snap, rfl, ?_⟩
    cases site with
    | none =>
      obtain ⟨key, -, hkey⟩ := exists_find?_of_findSome? h
      have hid := (of_hit hkey).1
      rw [hcache] at hid
      obtain ⟨host, hmem, heq, htenant, -⟩ := hsound.cache _ _ _ hid
      exact ⟨host, hmem, heq, htenant, nofun⟩
    | some s =>
      cases hfirst : lookup py rdnsCache (st.siteHostCache tenant s) (fun _ => true) q with
      | some id' =>
        obtain rfl : id' = id := by
          rw [resolveHostId, hfirst] at h
          exact Option.some.inj h
        obtain ⟨key, -, hkey⟩ := exists_find?_of_findSome? hfirst
        have hid := (of_hit hkey).1
        rw [hsiteCache] at hid
        obtain ⟨host, hmem, heq, htenant, hsite⟩ := hsound.siteCache _ _ _ _ hid
        refine ⟨host, hmem, heq, htenant, fun s' hs => ?_⟩
        obtain rfl := Option.some.inj hs
        exact ⟨fun hne => absurd hsite hne, fun _ _ _ _ _ _ => hsite⟩
      | none =>
        rw [resolveHostId, hfirst] at h
        obtain ⟨key, hfind, hkey⟩ := exists_find?_of_findSome? h
        obtain ⟨hid, haccept⟩ := of_hit hkey
        obtain ⟨hnotCross, hnotPrivate⟩ := of_siteFallbackOk haccept
        rw [hcache] at hid
        obtain ⟨host, hmem, heq, rfl, -, hsite⟩ := hsound.cache _ _ _ hid
        have hmatched : matchedKey py rdnsCache st q host.tenantId (some s) = some key := by
          simp only [matchedKey, lookupKey]
          rw [find?_isSome_eq_none hfirst]
          exact hfind
        refine ⟨host, hmem, heq, rfl, fun s' _ => ⟨fun _ => ⟨key, hmatched, hnotPrivate,
          fun other hother htenant hhas => ?_⟩, fun ip hip hhostname hrdns hprivate hlower => ?_⟩⟩
        · refine hostSite_eq_of_card_le ?_ hsite hother htenant hhas
          rw [hcross] at hnotCross
          exact of_decide_eq_false hnotCross
        · rcases keys_of_sourceIp hip hhostname hrdns key (mem_keys_of_matchedKey hmatched) with
            rfl | rfl
          · exact absurd hprivate hnotPrivate
          · exact absurd hlower hnotPrivate

/-! ### Samples -/

def samplePython : Python where
  lower := Text.asciiLower
  isGlobal text :=
    if text = "9.9.9.9" then some true else if text = "192.168.1.1" then some false else none

/-- A tenant with a gateway and a firewall in one site. -/
def sampleSnapshot : Snapshot where
  hosts := [⟨1, "gw-hq", "192.168.1.1", 1, some 1⟩, ⟨2, "fw", "9.9.9.9", 1, some 1⟩]
  nodup := by decide
  activeTenantIds := [1]
  defaultSiteId _ := none
  resolved _ := none

/-- The firewall is matched from another site, by its public address. -/
theorem resolveHostId_isolated_sampleSnapshot :
    ∃ snap, (afterRefreshes samplePython [(1000, some sampleSnapshot)]).read = some snap ∧
      ∃ host ∈ snap.hosts, host.id = 2 ∧ host.tenantId = 1 ∧
        (snap.hostSite host ≠ some 2 → ∃ key,
          matchedKey samplePython (fun _ => none)
            (afterRefreshes samplePython [(1000, some sampleSnapshot)]) ⟨"9.9.9.9", none, false⟩ 1
              (some 2) = some key ∧ ¬ IsPrivate samplePython key) := by
  obtain ⟨snap, hread, host, hmem, hid, htenant, hsite⟩ :=
    @resolveHostId_isolated samplePython [(1000, some sampleSnapshot)] (fun _ => none)
      ⟨"9.9.9.9", none, false⟩ 1 (some 2) 2 (by decide +kernel)
  refine ⟨snap, hread, host, hmem, hid, htenant, fun hne => ?_⟩
  obtain ⟨key, hkey, hprivate, -⟩ := (hsite 2 rfl).1 hne
  exact ⟨key, hkey, hprivate⟩

end Nodeglow.Syslog
