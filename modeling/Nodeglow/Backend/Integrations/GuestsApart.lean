import Nodeglow.Backend.Integrations.ProxmoxHosts

/-!
# Guests that are kept apart

After an import every node and guest with a name should have a host of its own, which carries its
source key, and which a guest keeps when it is renamed; and the same import again should change
nothing (`KeepsApart`). It is not so: the indexes of an import are out of date once a host was
matched, so that a guest can take the host of another one of its name, and of two new guests of the
same name the first one is left without a host (`not_guestsKeptApart`). A host of a source that is
neither Proxmox nor manual is matched by name, but not renamed, and not found by its key again.

`Apart` says when this does not happen at an import. The rows are read in any order each time.

## Main results

* `keepsApart_of_run` — when guests are kept apart, over all sequences of imports.

Source: `backend/integrations/proxmox.py`, lines 379–479.
-/

namespace Nodeglow.Integrations.Proxmox

variable {clusterName : String} {g : Entry} {data : Snapshot} {existing : Hosts} {host : PingHost}

/-! ### Guests and hosts -/

/-- Every entry with a name has a host of its own, which carries its source key; the host that
carried the key before still does; and the same import again, in whatever order the rows are read,
changes nothing. -/
structure KeepsApart (clusterName : String) (before : Hosts) (data : Snapshot) (after : Hosts) :
    Prop where
  represented : ∀ g ∈ named data, ∃! host, host ∈ after.rows ∧
    host.sourceDetail = some (sourceKey clusterName g)
  separate : (named data).Pairwise fun g g' => ∀ host ∈ after.rows,
    host.sourceDetail = some (sourceKey clusterName g) →
      host.sourceDetail ≠ some (sourceKey clusterName g')
  kept : ∀ g ∈ named data, ∀ host ∈ before.rows,
    host.sourceDetail = some (sourceKey clusterName g) →
      ∃ host' ∈ after.rows, host'.id = host.id ∧
        host'.sourceDetail = some (sourceKey clusterName g)
  idempotent : ∀ read : Hosts, read.rows.Perm after.rows → read.nextId = after.nextId →
    (importProxmoxHosts clusterName data read).hosts = read

/-- The entries of a snapshot are apart in the hosts as they are read; and where one is matched by
its name with a host of a third source, no other entry has this name, and every other host of this
name is found by the key of an entry. -/
structure Apart (clusterName : String) (existing : Hosts) (data : Snapshot) : Prop where
  separated : Reconciler.Separated (reconciler clusterName) existing.rows (named data)
  sole : ∀ g ∈ named data, ∀ host ∈ existing.rows,
    host.source ≠ some "manual" → host.source ≠ some "proxmox" →
    (reconciler clusterName).keyRow existing.rows g = none →
    (reconciler clusterName).nameRow existing.rows g = some host.id →
      (∀ g' ∈ named data, g'.hostname = g.hostname → g' = g) ∧
        ∀ host' ∈ existing.rows, host'.hostname = g.hostname → host' = host ∨
          ∃ g' ∈ named data, (reconciler clusterName).keyRow existing.rows g' = some host'.id

/-- An import: the rows as they are read, and the snapshot. -/
structure Call where
  read : Hosts
  data : Snapshot

/-- One import. -/
def Imports (clusterName : String) (before : Hosts) (call : Call) (after : Hosts) : Prop :=
  call.read.rows.Perm before.rows ∧ call.read.nextId = before.nextId ∧
    after = (importProxmoxHosts clusterName call.data call.read).hosts

/-- What the imports keep: a source key is that of one Proxmox host, and the name of a Proxmox host
is its hostname. -/
structure Inv (clusterName : String) (rows : List PingHost) : Prop where
  unique : Reconciler.UniqueKeys (reconciler clusterName) rows
  hostname : ∀ host ∈ rows, host.source = some "proxmox" → host.name = host.hostname

/-! ### One host -/

theorem isIndexed_iff : host.isIndexed = true ↔
    host.source = some "proxmox" ∧ ∃ detail, host.sourceDetail = some detail ∧
      ':' ∈ detail.toList := by
  simp [PingHost.isIndexed, Option.any_eq_true]

theorem isIndexed_of_sourceDetail
    (hdetail : host.sourceDetail = some (sourceKey clusterName g)) :
    host.isIndexed = true ↔ host.source = some "proxmox" := by
  rw [isIndexed_iff]
  exact ⟨And.left, fun h => ⟨h, _, hdetail, sourceKey_contains clusterName g⟩⟩

theorem source_update : (update clusterName g host).1.source =
    if host.source = some "manual" then some "proxmox" else host.source := by
  rw [update_eq]

theorem name_update (h : (update clusterName g host).1.source = some "proxmox") :
    (update clusterName g host).1.name = g.hostname := by
  rw [update_eq] at h ⊢
  exact if_pos h

theorem hostname_update (h : (update clusterName g host).1.source = some "proxmox")
    (hname : host.source = some "proxmox" → host.name = host.hostname)
    (hmatch : host.source ≠ some "proxmox" → host.hostname = g.hostname) :
    (update clusterName g host).1.hostname = g.hostname := by
  rw [update_eq] at h ⊢
  by_cases hsame : host.name = g.hostname
  · refine (if_neg fun hcond => hcond.2 hsame).trans ?_
    by_cases hsource : host.source = some "proxmox"
    · exact (hname hsource).symm.trans hsame
    · exact hmatch hsource
  · exact if_pos ⟨h, hsame⟩

/-- A host of a third source keeps its name. -/
theorem hostname_update_of_ne (h : (update clusterName g host).1.source ≠ some "proxmox") :
    (update clusterName g host).1.hostname = host.hostname := by
  rw [update_eq] at h ⊢
  exact if_neg fun hcond => h hcond.1

theorem ipAddress_update (h : (update clusterName g host).1.source = some "proxmox")
    (hip : g.ip.filter (· ≠ "") ≠ none) :
    (update clusterName g host).1.ipAddress = g.ip.filter (· ≠ "") := by
  rw [update_eq] at h ⊢
  exact if_pos ⟨h, hip⟩

/-- A host is as an entry has it. -/
structure Settled (clusterName : String) (g : Entry) (host : PingHost) : Prop where
  source : host.source ≠ some "manual"
  name : host.source = some "proxmox" → host.name = g.hostname
  ipAddress : host.source = some "proxmox" → g.ip.filter (· ≠ "") ≠ none →
    host.ipAddress = g.ip.filter (· ≠ "")
  sourceDetail : host.sourceDetail = some (sourceKey clusterName g)

theorem Settled.update (h : Settled clusterName g host) : (update clusterName g host).1 = host := by
  have hadopt : adopt host = (host, false) := if_neg h.source
  have hrename : rename g.hostname host = (host, false) :=
    if_neg fun hcond => hcond.2 (h.name hcond.1)
  have hreaddress : readdress g.ip host = (host, false) :=
    if_neg fun hcond => hcond.2.2 (h.ipAddress hcond.1 hcond.2.1)
  have hrelabel : relabel (sourceKey clusterName g) host = (host, false) :=
    if_neg fun hcond => hcond h.sourceDetail
  simp only [Proxmox.update, hadopt, hrename, hreaddress, hrelabel]

theorem settled_update (clusterName : String) (g : Entry) (host : PingHost) :
    Settled clusterName g (update clusterName g host).1 where
  source := by
    rw [source_update]
    split_ifs with h
    · decide
    · exact h
  name := name_update
  ipAddress := ipAddress_update
  sourceDetail := sourceDetail_update clusterName g host

theorem settled_newHost (clusterName : String) (g : Entry) (id : ℕ) :
    Settled clusterName g (newHost clusterName g id) where
  source := by simp [newHost]
  name _ := rfl
  ipAddress _ _ := rfl
  sourceDetail := rfl

/-! ### One import -/

/-- The hosts after an import. -/
abbrev hostsAfter (clusterName : String) (data : Snapshot) (existing : Hosts) : List PingHost :=
  (importProxmoxHosts clusterName data existing).hosts.rows

section Import

variable (hinv : Inv clusterName existing.rows) (hapart : Apart clusterName existing data)

/-- A host that is not one of Proxmox is found by its name. -/
theorem nameRow_of_target (hhost : host ∈ existing.rows)
    (htarget : (reconciler clusterName).target
      ((reconciler clusterName).start existing.rows existing.nextId) g = some host.id)
    (hsource : host.source ≠ some "proxmox") :
    (reconciler clusterName).keyRow existing.rows g = none ∧
      (reconciler clusterName).nameRow existing.rows g = some host.id ∧
      host.hostname = g.hostname := by
  have hvalid := valid_existing clusterName existing
  rw [Reconciler.target_start, Option.or_eq_some_iff] at htarget
  rcases htarget with hkey | ⟨hnone, hname⟩
  · obtain ⟨host', hhost', hindex, hid⟩ := Reconciler.exists_of_index hkey
    obtain rfl := hvalid.eq_of_id hhost' hhost hid
    obtain ⟨hindexed, -⟩ := Reconciler.indexKey_eq_some_iff.mp hindex
    exact absurd (isIndexed_iff.mp hindexed).1 hsource
  · obtain ⟨host', hhost', hindex, hid⟩ := Reconciler.exists_of_index hname
    obtain rfl := hvalid.eq_of_id hhost' hhost hid
    exact ⟨hnone, hname, Option.some.inj hindex⟩

include hinv in
/-- A host that was matched has the name of its entry. -/
theorem hostname_of_target (hhost : host ∈ existing.rows)
    (htarget : (reconciler clusterName).target
      ((reconciler clusterName).start existing.rows existing.nextId) g = some host.id) :
    (update clusterName g host).1.hostname = g.hostname := by
  by_cases hsource : (update clusterName g host).1.source = some "proxmox"
  · exact hostname_update hsource (hinv.hostname host hhost) fun hne =>
      (nameRow_of_target hhost htarget hne).2.2
  · rw [hostname_update_of_ne hsource]
    refine (nameRow_of_target hhost htarget fun hproxmox => hsource ?_).2.2
    rw [source_update, hproxmox]
    rfl

include hinv hapart

theorem settled_of_import (hg : g ∈ named data)
    (hhost : host ∈ hostsAfter clusterName data existing)
    (hdetail : host.sourceDetail = some (sourceKey clusterName g)) :
    Settled clusterName g host := by
  rw [hostsAfter, (importProxmoxHosts_eq clusterName data existing).1] at hhost
  rcases hapart.separated.cases_of_label (valid_existing clusterName existing) hinv.unique hg hhost
    hdetail with ⟨host', -, -, rfl⟩ | ⟨-, -, id, rfl⟩
  · exact settled_update clusterName g host'
  · exact settled_newHost clusterName g id

/-- A host of a third source that carries the key of an entry has the name of that entry, and is
the only host of this name. -/
theorem sole_of_import (hg : g ∈ named data)
    (hhost : host ∈ hostsAfter clusterName data existing)
    (hdetail : host.sourceDetail = some (sourceKey clusterName g))
    (hsource : host.source ≠ some "proxmox") :
    host.hostname = g.hostname ∧
      ∀ host' ∈ hostsAfter clusterName data existing, host'.hostname = g.hostname →
        host' = host := by
  have hvalid := valid_existing clusterName existing
  rw [hostsAfter, (importProxmoxHosts_eq clusterName data existing).1] at hhost ⊢
  rcases hapart.separated.cases_of_label hvalid hinv.unique hg hhost hdetail with
    ⟨old, hold, htarget, rfl⟩ | ⟨-, -, id, rfl⟩
  · have hmanual : old.source ≠ some "manual" := fun heq =>
      hsource (source_update.trans (if_pos heq))
    have hproxmox : old.source ≠ some "proxmox" := fun heq =>
      hsource (source_update.trans ((if_neg hmanual).trans heq))
    obtain ⟨hnone, hname, -⟩ := nameRow_of_target hold htarget hproxmox
    obtain ⟨hentries, hothers⟩ := hapart.sole g hg old hold hmanual hproxmox hnone hname
    refine ⟨hostname_of_target hinv hold htarget, fun host' hhost' hhostname => ?_⟩
    rcases hapart.separated.mem_run_cases hvalid hhost' with
      ⟨hkept, huntouched⟩ | ⟨old', hold', g', hg', htarget', rfl⟩ | ⟨g', hg', htarget', -, id, rfl⟩
    · rcases hothers host' hkept hhostname with rfl | ⟨g', hg', hkey⟩
      · exact absurd htarget (huntouched g hg)
      · refine absurd ?_ (huntouched g' hg')
        rw [Reconciler.target_start, hkey]
        rfl
    · have heq := hentries g' hg' ((hostname_of_target hinv hold' htarget').symm.trans hhostname)
      subst heq
      rw [hvalid.eq_of_id hold' hold (Option.some.inj (htarget'.symm.trans htarget))]
    · have heq := hentries g' hg' hhostname
      subst heq
      rw [htarget] at htarget'
      cases htarget'
  · exact absurd rfl hsource

theorem Inv.import : Inv clusterName (hostsAfter clusterName data existing) where
  unique := by
    rw [hostsAfter, (importProxmoxHosts_eq clusterName data existing).1]
    exact Reconciler.UniqueKeys.run (valid_existing clusterName existing) hinv.unique
      hapart.separated
  hostname := by
    rw [hostsAfter, (importProxmoxHosts_eq clusterName data existing).1]
    intro host hhost hsource
    rcases hapart.separated.mem_run_cases (valid_existing clusterName existing) hhost with
      ⟨hold, -⟩ | ⟨host', hhost', g, -, htarget, rfl⟩ | ⟨g, -, -, -, id, rfl⟩
    · exact hinv.hostname host hold hsource
    · exact (name_update hsource).trans (hostname_of_target hinv hhost' htarget).symm
    · rfl

/-- **An import of entries that are apart** keeps them apart. -/
theorem keepsApart_of_apart :
    KeepsApart clusterName existing data (importProxmoxHosts clusterName data existing).hosts where
  represented g hg := by
    rw [(importProxmoxHosts_eq clusterName data existing).1]
    exact Reconciler.existsUnique_label (valid_existing clusterName existing) hinv.unique
      hapart.separated hg
  separate := hapart.separated.keys.imp fun hne host _ h h' =>
    hne (Option.some.inj (h.symm.trans h'))
  kept g hg host hhost hdetail := by
    rw [(importProxmoxHosts_eq clusterName data existing).1]
    exact Reconciler.exists_of_label (valid_existing clusterName existing) hinv.unique
      hapart.separated hhost hg hdetail
  idempotent read hperm hnext := by
    have hrun : (reconciler clusterName).run
        ((reconciler clusterName).start read.rows read.nextId) (named data) =
          (reconciler clusterName).start read.rows read.nextId := by
      have hperm' := hperm
      rw [(importProxmoxHosts_eq clusterName data existing).1] at hperm'
      refine Reconciler.run_of_run (valid_existing clusterName existing) hinv.unique
        hapart.separated hperm' fun g hg host hhost hdetail => ⟨?_, fun hindexed => ?_⟩
      · exact (settled_of_import hinv hapart hg (hperm.mem_iff.mp hhost) hdetail).update
      · have hsource : host.source ≠ some "proxmox" := fun hproxmox =>
          Bool.eq_false_iff.mp hindexed ((isIndexed_of_sourceDetail hdetail).mpr hproxmox)
        obtain ⟨hname, honly⟩ :=
          sole_of_import hinv hapart hg (hperm.mem_iff.mp hhost) hdetail hsource
        exact ⟨hname, fun host' hhost' => honly host' (hperm.mem_iff.mp hhost')⟩
    obtain ⟨hrows, hnext'⟩ := importProxmoxHosts_eq clusterName data read
    rw [hrun] at hrows hnext'
    exact Hosts.ext hrows hnext'

end Import

/-! ### Sequences of imports -/

/-- The entries are apart in the hosts as an import reads them. -/
def CallApart (clusterName : String) (_ : Hosts) (call : Call) : Prop :=
  Apart clusterName call.read call.data

/-- Hosts of other sources. -/
def Foreign (start : Hosts) : Prop := ∀ host ∈ start.rows, host.source ≠ some "proxmox"

instance (start : Hosts) : Decidable (Foreign start) := by
  unfold Foreign
  infer_instance

theorem Inv.of_foreign {start : Hosts} (h : Foreign start) : Inv clusterName start.rows where
  unique k host hhost _ _ hkey _ := by
    obtain ⟨hindexed, -⟩ := Reconciler.indexKey_eq_some_iff.mp hkey
    exact absurd (isIndexed_iff.mp hindexed).1 (h host hhost)
  hostname host hhost hsource := absurd hsource (h host hhost)

theorem Inv.perm {rows rows' : List PingHost} (h : Inv clusterName rows) (hperm : rows'.Perm rows) :
    Inv clusterName rows' where
  unique k host hhost host' hhost' :=
    h.unique k host (hperm.mem_iff.mp hhost) host' (hperm.mem_iff.mp hhost')
  hostname host hhost := h.hostname host (hperm.mem_iff.mp hhost)

theorem Inv.imports {before after : Hosts} {call : Call} (h : Inv clusterName before.rows)
    (hstep : Guarded (CallApart clusterName) (Imports clusterName) before call after) :
    Inv clusterName after.rows := by
  obtain ⟨hapart, hperm, -, rfl⟩ := hstep
  exact (h.perm hperm).import hapart

theorem KeepsApart.perm {before before' after : Hosts}
    (h : KeepsApart clusterName before data after) (hperm : before.rows.Perm before'.rows) :
    KeepsApart clusterName before' data after where
  represented := h.represented
  separate := h.separate
  kept g hg host hhost := h.kept g hg host (hperm.mem_iff.mpr hhost)
  idempotent := h.idempotent

/-- **When guests are kept apart**: in every sequence of imports, from any hosts of other sources,
in which the entries of every snapshot are apart in the hosts as they are read. -/
theorem keepsApart_of_run (clusterName : String) {start before after : Hosts} {calls : List Call}
    {call : Call} (hstart : Foreign start)
    (hrun : Run (Guarded (CallApart clusterName) (Imports clusterName)) start calls before)
    (hstep : Guarded (CallApart clusterName) (Imports clusterName) before call after) :
    KeepsApart clusterName before call.data after := by
  have hinv : Inv clusterName before.rows :=
    hrun.invariant (I := fun hosts => Inv clusterName hosts.rows)
      (fun _ _ _ h hstep => h.imports hstep) (Inv.of_foreign hstart)
  obtain ⟨hapart, hperm, -, rfl⟩ := hstep
  exact (keepsApart_of_apart (hinv.perm hperm) hapart).perm hperm

/-- A manual host and one of a controller, by the names of guests. -/
def someHosts : Hosts where
  rows := [⟨1, "db", "db", none, some "icmp", some true, some "manual", none⟩,
    ⟨2, "nas", "nas", some "10.0.0.2", some "icmp", some true, some "unifi", some "controller"⟩]
  nextId := 3
  nodup := by decide
  lt := by decide

/-- The guests of these names, and a node. -/
def firstSnapshot : Snapshot where
  nodes := [⟨some "pve1", none, true⟩]
  vms := [⟨some 100, some "db", none, true⟩]
  containers := [⟨some 101, some "nas", some "10.0.0.3", true⟩]

/-- The first guest is renamed. -/
def renamedSnapshot : Snapshot where
  nodes := [⟨some "pve1", none, true⟩]
  vms := [⟨some 100, some "db-old", none, true⟩]
  containers := [⟨some 101, some "nas", some "10.0.0.3", true⟩]

theorem keepsApart_of_run_renamed :
    Foreign someHosts ∧
      KeepsApart "cl" (importProxmoxHosts "cl" firstSnapshot someHosts).hosts renamedSnapshot
        (importProxmoxHosts "cl" renamedSnapshot
          (importProxmoxHosts "cl" firstSnapshot someHosts).hosts).hosts := by
  have hforeign : Foreign someHosts := by decide
  have hfirst : Apart "cl" someHosts firstSnapshot :=
    ⟨⟨by decide +kernel, by decide +kernel, by decide +kernel, by decide +kernel⟩,
      by decide +kernel⟩
  have hsecond : Apart "cl" (importProxmoxHosts "cl" firstSnapshot someHosts).hosts
      renamedSnapshot :=
    ⟨⟨by decide +kernel, by decide +kernel, by decide +kernel, by decide +kernel⟩,
      by decide +kernel⟩
  have hrun : Run (Guarded (CallApart "cl") (Imports "cl")) someHosts
      [⟨someHosts, firstSnapshot⟩] (importProxmoxHosts "cl" firstSnapshot someHosts).hosts :=
    .single ⟨hfirst, .refl _, rfl, rfl⟩
  have hstep : Guarded (CallApart "cl") (Imports "cl")
      (importProxmoxHosts "cl" firstSnapshot someHosts).hosts
      ⟨(importProxmoxHosts "cl" firstSnapshot someHosts).hosts, renamedSnapshot⟩
      (importProxmoxHosts "cl" renamedSnapshot
        (importProxmoxHosts "cl" firstSnapshot someHosts).hosts).hosts :=
    ⟨hsecond, .refl _, rfl, rfl⟩
  exact ⟨hforeign, keepsApart_of_run "cl" hforeign hrun hstep⟩

/-- Guests are kept apart in all sequences of imports. -/
def GuestsKeptApart : Prop :=
  ∀ (clusterName : String) (start before after : Hosts) (calls : List Call) (call : Call),
    Foreign start → Run (Imports clusterName) start calls before →
    Imports clusterName before call after → KeepsApart clusterName before call.data after

/-- No hosts. -/
def noHosts : Hosts := ⟨[], 1, by decide, by decide⟩

/-- Two guests of one name. -/
def twins : Snapshot where
  nodes := []
  vms := [⟨some 100, some "web", none, true⟩, ⟨some 101, some "web", none, true⟩]
  containers := []

/-- The first of two new guests of one name has no host. -/
theorem not_guestsKeptApart : ¬GuestsKeptApart := by
  intro h
  have hkeeps := h "cl" noHosts noHosts _ [] ⟨noHosts, twins⟩ (by decide) (.nil noHosts)
    ⟨.refl _, rfl, rfl⟩
  obtain ⟨host, ⟨hhost, hdetail⟩, -⟩ := hkeeps.represented
    ⟨⟨some 100, some "web", none, true⟩, false⟩ (by decide +kernel)
  have hnone : ∀ host ∈ (importProxmoxHosts "cl" twins noHosts).hosts.rows,
      host.sourceDetail ≠ some "cl:100" := by decide +kernel
  have hkey : sourceKey "cl" ⟨⟨some 100, some "web", none, true⟩, false⟩ = "cl:100" := by
    decide +kernel
  exact hnone host hhost (hkey ▸ hdetail)

end Nodeglow.Integrations.Proxmox
