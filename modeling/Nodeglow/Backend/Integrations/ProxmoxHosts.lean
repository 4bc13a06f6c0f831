import Nodeglow.Foundation.Reconcile
import Nodeglow.Foundation.Run
import Nodeglow.Foundation.Text

/-!
# Hosts of a Proxmox cluster

An import makes a host of every node and guest of a snapshot that has a name. An entry is matched by
its source key, which a guest keeps when it is renamed, or else by its name. The indexes for both
are built before the loop; of what the loop changes, only the created hosts are added.

## Main results

* `importProxmoxHosts_eq` — the import reconciles the hosts with the named entries.

Source: `backend/integrations/proxmox.py`, lines 379–479; `backend/models/ping.py`.
-/

namespace Nodeglow.Integrations.Proxmox

/-! ### Snapshots -/

/-- A node of `parse_cluster_data`. -/
structure Node where
  name : Option String
  ip : Option String
  online : Bool

/-- A virtual machine or a container. -/
structure Guest where
  id : Option ℕ
  name : Option String
  ip : Option String
  running : Bool
deriving DecidableEq, Repr

structure Snapshot where
  nodes : List Node
  vms : List Guest
  containers : List Guest

/-- An entry of `all_entries`. -/
structure Entry extends Guest where
  isNode : Bool
deriving DecidableEq, Repr

def allEntries (data : Snapshot) : List Entry :=
  data.nodes.map (fun node => ⟨⟨none, node.name, node.ip, node.online⟩, true⟩) ++
    (data.vms ++ data.containers).map fun g => ⟨g, false⟩

def Entry.hostname (g : Entry) : String := Text.strip (g.name.getD "")

/-- `cluster:vmid` for guests, `cluster:node:name` for nodes. -/
def sourceKey (clusterName : String) (g : Entry) : String :=
  let vmid := g.id.getD 0
  if vmid ≠ 0 ∧ g.isNode = false then clusterName ++ ":" ++ toString vmid
  else clusterName ++ ":node:" ++ g.hostname

/-- The entries with a name. -/
def named (data : Snapshot) : List Entry := (allEntries data).filter fun g => g.hostname ≠ ""

/-! ### Hosts -/

structure PingHost where
  id : ℕ
  name : String
  hostname : String
  ipAddress : Option String
  checkType : Option String
  enabled : Option Bool
  source : Option String
  sourceDetail : Option String
deriving DecidableEq, Repr

/-- The hosts with distinct ids, and the next id of the sequence. -/
@[ext]
structure Hosts where
  rows : List PingHost
  nextId : ℕ
  nodup : (rows.map PingHost.id).Nodup
  lt : ∀ host ∈ rows, host.id < nextId

/-- A host that `by_source_key` has. -/
def PingHost.isIndexed (host : PingHost) : Bool :=
  host.source = some "proxmox" ∧ host.sourceDetail.any fun detail => ':' ∈ detail.toList

/-- A manual host is taken over. -/
def adopt (host : PingHost) : PingHost × Bool :=
  if host.source = some "manual" then ({ host with source := some "proxmox" }, true)
  else (host, false)

/-- The name follows the one in Proxmox. -/
def rename (hostname : String) (host : PingHost) : PingHost × Bool :=
  if host.source = some "proxmox" ∧ host.name ≠ hostname then
    ({ host with name := hostname, hostname := hostname }, true)
  else (host, false)

/-- The address is the one of the guest config, where that has one. -/
def readdress (ip : Option String) (host : PingHost) : PingHost × Bool :=
  let ip := ip.filter (· ≠ "")
  if host.source = some "proxmox" ∧ ip ≠ none ∧ host.ipAddress ≠ ip then
    ({ host with ipAddress := ip }, true)
  else (host, false)

def relabel (sourceKey : String) (host : PingHost) : PingHost × Bool :=
  if host.sourceDetail ≠ some sourceKey then ({ host with sourceDetail := some sourceKey }, true)
  else (host, false)

/-- What an entry makes of its host, and whether that was changed. -/
def update (clusterName : String) (g : Entry) (host : PingHost) : PingHost × Bool :=
  let adopted := adopt host
  let renamed := rename g.hostname adopted.1
  let readdressed := readdress g.ip renamed.1
  let relabelled := relabel (sourceKey clusterName g) readdressed.1
  (relabelled.1, adopted.2 || renamed.2 || readdressed.2 || relabelled.2)

def newHost (clusterName : String) (g : Entry) (id : ℕ) : PingHost where
  id := id
  name := g.hostname
  hostname := g.hostname
  ipAddress := g.ip.filter (· ≠ "")
  checkType := some "icmp"
  enabled := some g.running
  source := some "proxmox"
  sourceDetail := some (sourceKey clusterName g)

/-! ### The import -/

/-- The hosts of the session, the indexes, the counts, and whether there is something to commit. -/
structure Loop where
  rows : List PingHost
  nextId : ℕ
  byHostname : String → Option ℕ
  bySourceKey : String → Option ℕ
  added : ℕ
  merged : ℕ
  skipped : ℕ
  dirty : Bool

def importEntry (clusterName : String) (loop : Loop) (g : Entry) : Loop :=
  if g.hostname = "" then { loop with skipped := loop.skipped + 1 }
  else
    let key := sourceKey clusterName g
    match (loop.bySourceKey key).or (loop.byHostname g.hostname) with
    | some id =>
      { loop with
        rows := loop.rows.map fun host =>
          if host.id = id then (update clusterName g host).1 else host
        merged := loop.merged + 1
        dirty := loop.dirty ||
          loop.rows.any fun host => host.id = id ∧ (update clusterName g host).2 }
    | none =>
      { loop with
        rows := loop.rows ++ [newHost clusterName g loop.nextId]
        nextId := loop.nextId + 1
        byHostname := Function.update loop.byHostname g.hostname (some loop.nextId)
        bySourceKey := Function.update loop.bySourceKey key (some loop.nextId)
        added := loop.added + 1
        dirty := true }

/-- The hosts as they are read. -/
def startLoop (existing : Hosts) : Loop where
  rows := existing.rows
  nextId := existing.nextId
  byHostname := Reconciler.index PingHost.id (fun host => some host.hostname) existing.rows
  bySourceKey := Reconciler.index PingHost.id
    (fun host => if host.isIndexed then host.sourceDetail else none) existing.rows
  added := 0
  merged := 0
  skipped := 0
  dirty := false

def runLoop (clusterName : String) (data : Snapshot) (existing : Hosts) : Loop :=
  (allEntries data).foldl (importEntry clusterName) (startLoop existing)

theorem sourceKey_contains (clusterName : String) (g : Entry) :
    ':' ∈ (sourceKey clusterName g).toList := by
  unfold sourceKey
  dsimp only
  split_ifs <;> simp

theorem adopt_eq (host : PingHost) : (adopt host).1 =
    { host with
      source := if host.source = some "manual" then some "proxmox" else host.source } := by
  unfold adopt
  split_ifs <;> rfl

theorem rename_eq (hostname : String) (host : PingHost) : (rename hostname host).1 =
    { host with
      name := if host.source = some "proxmox" then hostname else host.name
      hostname := if host.source = some "proxmox" ∧ host.name ≠ hostname then hostname
        else host.hostname } := by
  unfold rename
  by_cases hsource : host.source = some "proxmox"
  · by_cases hname : host.name = hostname
    · simp [← hname]
    · simp [hsource, hname]
  · simp [hsource]

theorem readdress_eq (ip : Option String) (host : PingHost) : (readdress ip host).1 =
    { host with
      ipAddress := if host.source = some "proxmox" ∧ ip.filter (· ≠ "") ≠ none
        then ip.filter (· ≠ "") else host.ipAddress } := by
  unfold readdress
  dsimp only
  by_cases hcond : host.source = some "proxmox" ∧ ip.filter (· ≠ "") ≠ none
  · rw [if_pos hcond]
    split_ifs with hall
    · rfl
    · have haddress : host.ipAddress = ip.filter (· ≠ "") :=
        not_not.mp fun hne => hall ⟨hcond.1, hcond.2, hne⟩
      rw [← haddress]
  · rw [if_neg hcond, if_neg fun hall => hcond ⟨hall.1, hall.2.1⟩]

theorem relabel_eq (sourceKey : String) (host : PingHost) : (relabel sourceKey host).1 =
    { host with sourceDetail := some sourceKey } := by
  unfold relabel
  split_ifs with hne
  · rfl
  · rw [← not_not.mp hne]

/-- **What an entry makes of its host**, field by field. -/
theorem update_eq (clusterName : String) (g : Entry) (host : PingHost) :
    (update clusterName g host).1 =
      let source := if host.source = some "manual" then some "proxmox" else host.source
      { host with
        name := if source = some "proxmox" then g.hostname else host.name
        hostname := if source = some "proxmox" ∧ host.name ≠ g.hostname then g.hostname
          else host.hostname
        ipAddress := if source = some "proxmox" ∧ g.ip.filter (· ≠ "") ≠ none
          then g.ip.filter (· ≠ "") else host.ipAddress
        source := source
        sourceDetail := some (sourceKey clusterName g) } := by
  rw [update, relabel_eq, readdress_eq, rename_eq, adopt_eq]

theorem id_update (clusterName : String) (g : Entry) (host : PingHost) :
    (update clusterName g host).1.id = host.id := by
  rw [update_eq]

theorem sourceDetail_update (clusterName : String) (g : Entry) (host : PingHost) :
    (update clusterName g host).1.sourceDetail = some (sourceKey clusterName g) := by
  rw [update_eq]

/-- Hosts and entries, as the import reconciles them. -/
def reconciler (clusterName : String) : Reconciler PingHost Entry String String where
  id := PingHost.id
  label := PingHost.sourceDetail
  indexed := PingHost.isIndexed
  rowName := PingHost.hostname
  key := sourceKey clusterName
  name := Entry.hostname
  merge g host := (update clusterName g host).1
  create := newHost clusterName
  id_merge := id_update clusterName
  id_create _ _ := rfl
  label_merge := sourceDetail_update clusterName
  label_create _ _ := rfl

def Loop.toState (loop : Loop) : Reconciler.State PingHost String String :=
  ⟨loop.rows, loop.nextId, loop.bySourceKey, loop.byHostname⟩

variable {clusterName : String} {g : Entry} {data : Snapshot} {existing : Hosts} {loop : Loop}

theorem toState_importEntry : (importEntry clusterName loop g).toState =
    if g.hostname = "" then loop.toState else (reconciler clusterName).step loop.toState g := by
  unfold importEntry
  split_ifs with hname
  · rfl
  · dsimp only
    cases htarget : (reconciler clusterName).target loop.toState g with
    | some i =>
      have hmatch : (loop.bySourceKey (sourceKey clusterName g)).or
          (loop.byHostname g.hostname) = some i := htarget
      rw [hmatch, Reconciler.step_of_some htarget]
      rfl
    | none =>
      have hmatch : (loop.bySourceKey (sourceKey clusterName g)).or
          (loop.byHostname g.hostname) = none := htarget
      rw [hmatch, Reconciler.step_of_none htarget]
      dsimp only [Loop.toState, reconciler]

theorem toState_foldl (entries : List Entry) :
    (entries.foldl (importEntry clusterName) loop).toState =
      (reconciler clusterName).run loop.toState (entries.filter fun g => g.hostname ≠ "") := by
  induction entries generalizing loop with
  | nil => rfl
  | cons g entries ih =>
    rw [List.foldl_cons, ih, toState_importEntry]
    split_ifs with hname
    · rw [List.filter_cons_of_neg (by simpa using hname)]
    · rw [List.filter_cons_of_pos (by simpa using hname), Reconciler.run, Reconciler.run,
        List.foldl_cons]

/-- The import reconciles the hosts with the named entries. -/
theorem toState_runLoop : (runLoop clusterName data existing).toState =
    (reconciler clusterName).run ((reconciler clusterName).start existing.rows existing.nextId)
      (named data) :=
  toState_foldl (allEntries data)

theorem valid_existing (clusterName : String) (existing : Hosts) :
    Reconciler.Valid (reconciler clusterName) existing.rows existing.nextId :=
  ⟨existing.nodup, existing.lt⟩

theorem valid_runLoop (clusterName : String) (data : Snapshot) (existing : Hosts) :
    Reconciler.Valid (reconciler clusterName) (runLoop clusterName data existing).rows
      (runLoop clusterName data existing).nextId := by
  have hvalid := Reconciler.Valid.run (s := (reconciler clusterName).start existing.rows
    existing.nextId) (valid_existing clusterName existing) (named data)
  rwa [← toState_runLoop] at hvalid

structure Imported where
  hosts : Hosts
  added : ℕ
  merged : ℕ
  skipped : ℕ

/-- `import_proxmox_hosts`: the hosts are committed if one was added or changed. -/
def importProxmoxHosts (clusterName : String) (data : Snapshot) (existing : Hosts) : Imported :=
  let loop := runLoop clusterName data existing
  { hosts :=
      if loop.dirty then
        { rows := loop.rows
          nextId := loop.nextId
          nodup := (valid_runLoop clusterName data existing).nodup
          lt := (valid_runLoop clusterName data existing).lt }
      else existing
    added := loop.added
    merged := loop.merged
    skipped := loop.skipped }

section NotChanged

variable {host : PingHost}

theorem adopt_of_not_changed (h : (adopt host).2 = false) : (adopt host).1 = host := by
  unfold adopt at h ⊢
  split_ifs at h ⊢
  rfl

theorem rename_of_not_changed {hostname : String} (h : (rename hostname host).2 = false) :
    (rename hostname host).1 = host := by
  unfold rename at h ⊢
  split_ifs at h ⊢
  rfl

theorem readdress_of_not_changed {ip : Option String} (h : (readdress ip host).2 = false) :
    (readdress ip host).1 = host := by
  unfold readdress at h ⊢
  dsimp only at h ⊢
  split_ifs at h ⊢
  rfl

theorem relabel_of_not_changed {sourceKey : String} (h : (relabel sourceKey host).2 = false) :
    (relabel sourceKey host).1 = host := by
  unfold relabel at h ⊢
  split_ifs at h ⊢
  rfl

/-- A host that is not marked as changed is as it was. -/
theorem update_of_not_changed (h : (update clusterName g host).2 = false) :
    (update clusterName g host).1 = host := by
  simp only [update, Bool.or_eq_false_iff] at h
  obtain ⟨⟨⟨hadopted, hrenamed⟩, hreaddressed⟩, hrelabelled⟩ := h
  rw [update, relabel_of_not_changed hrelabelled, readdress_of_not_changed hreaddressed,
    rename_of_not_changed hrenamed, adopt_of_not_changed hadopted]

end NotChanged

theorem importEntry_of_not_dirty (h : (importEntry clusterName loop g).dirty = false) :
    loop.dirty = false ∧ (importEntry clusterName loop g).rows = loop.rows ∧
      (importEntry clusterName loop g).nextId = loop.nextId := by
  unfold importEntry at h ⊢
  split_ifs at h ⊢ with hname
  · exact ⟨h, rfl, rfl⟩
  · dsimp only at h ⊢
    split at h
    · next id hmatch =>
      rw [Bool.or_eq_false_iff, List.any_eq_false] at h
      refine ⟨h.1, ?_, rfl⟩
      refine (List.map_congr_left fun host hhost => ?_).trans (List.map_id loop.rows)
      split_ifs with hid
      · exact update_of_not_changed (by simpa [hid] using h.2 host hhost)
      · rfl
    · cases h

/-- Where nothing is marked as changed, nothing has changed. -/
theorem foldl_of_not_dirty {entries : List Entry}
    (h : (entries.foldl (importEntry clusterName) loop).dirty = false) :
    (entries.foldl (importEntry clusterName) loop).rows = loop.rows ∧
      (entries.foldl (importEntry clusterName) loop).nextId = loop.nextId ∧ loop.dirty = false := by
  induction entries generalizing loop with
  | nil => exact ⟨rfl, rfl, h⟩
  | cons g entries ih =>
    rw [List.foldl_cons] at h ⊢
    obtain ⟨hrows, hnext, hdirty⟩ := ih h
    obtain ⟨hdirty', hrows', hnext'⟩ := importEntry_of_not_dirty hdirty
    exact ⟨hrows.trans hrows', hnext.trans hnext', hdirty'⟩

/-- **The rows after an import.** -/
theorem importProxmoxHosts_eq (clusterName : String) (data : Snapshot) (existing : Hosts) :
    (importProxmoxHosts clusterName data existing).hosts.rows =
        ((reconciler clusterName).run
          ((reconciler clusterName).start existing.rows existing.nextId) (named data)).rows ∧
      (importProxmoxHosts clusterName data existing).hosts.nextId =
        ((reconciler clusterName).run
          ((reconciler clusterName).start existing.rows existing.nextId) (named data)).next := by
  rw [← toState_runLoop]
  unfold importProxmoxHosts
  dsimp only
  split_ifs with hdirty
  · exact ⟨rfl, rfl⟩
  · obtain ⟨hrows, hnext, -⟩ := foldl_of_not_dirty (Bool.eq_false_iff.mpr hdirty)
    exact ⟨hrows.symm, hnext.symm⟩

end Nodeglow.Integrations.Proxmox
