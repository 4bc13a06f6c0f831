import Nodeglow.Foundation.Json
import Nodeglow.Foundation.Text
import Nodeglow.Backend.Topology.Ancestors

/-!
# Building the topology

The topology starts with the parents that were entered for hosts. Each enabled Proxmox or UniFi
configuration then proposes links, from its latest snapshot: a guest below its node, switches and
access points below their gateway, clients below their switch. Devices and guests are matched to
hosts by addresses and names. A link is added where the host has no parent yet.

The link of a guest and that of a client are not made when both sides are the same host. The links
of switches and access points are (`not_acyclic_sample`), and no link is compared with the parents
that are there. So the topology gets a cycle as soon as a link for a host without a parent leads to
the host itself or to a host below it (`acyclic_iff`).

An error in Python is `none`: a snapshot whose parts have not the expected types.

Source: `backend/services/topology.py`, lines 20–161.
-/

namespace Nodeglow.HostTopology

open ParentMap

/-! ### Hosts and snapshots -/

/-- A host, with the columns that the topology reads. -/
structure PingHost where
  id : ℤ
  name : String
  hostname : String
  macAddress : Option String
  parentId : Option ℤ
deriving DecidableEq, Repr

/-- A snapshot, with what `json.loads` makes of its data: nothing of data that are missing or no
JSON. -/
structure Snapshot where
  ok : Bool
  data : Option Json

/-- An integration, with its latest snapshot. -/
structure Config where
  type : String
  enabled : Bool
  snapshot : Option Snapshot

/-- An id in a condition: zero counts as none. -/
def known (id : Option ℤ) : Option ℤ := id.filter (· ≠ 0)

section Fields

/-- `d.get(key, default)`; only an object has `get`. -/
def field (d : Json) (key : String) (default : Json) : Option Json :=
  match d with
  | .obj _ => some ((d.get? key).getD default)
  | _ => none

/-- `(d.get(key) or "").strip()`. -/
def textField (d : Json) (key : String) : Option String := do
  let v ← field d key .null
  if v.truthy then v.str?.map Text.strip else some ""

/-- The items of a `for` loop that takes objects. Of what is no list, only an empty text or object
has no first item that fails. -/
def loopItems (items : Json) : Option (List Json) :=
  match items with
  | .arr items => some items
  | .str "" => some []
  | .obj [] => some []
  | _ => none

/-- The items of a `for` loop over a sum. -/
def sumItems (a b : Json) : Option (List Json) :=
  match a, b with
  | .arr xs, .arr ys => some (xs ++ ys)
  | .str "", .str "" => some []
  | _, _ => none

end Fields

/-! ### The maps of hosts -/

/-- A host name without its scheme. -/
def withoutScheme (raw : String) : String :=
  if "https://".toList.isPrefixOf raw.toList then String.ofList (raw.toList.drop 8)
  else if "http://".toList.isPrefixOf raw.toList then String.ofList (raw.toList.drop 7)
  else raw

/-- The address in a host name: what stands before a path and a port. -/
def address (hostname : String) : String :=
  String.ofList (((withoutScheme hostname).toList.takeWhile (· ≠ '/')).takeWhile (· ≠ ':'))

section Maps

variable (py : Text.Lower) (hosts : List PingHost)

/-- The topology of the entered parents. -/
def manualTopology : Topology := hosts.foldl (fun topology h => topology.set h.id h.parentId) .empty

/-- Where the entered parents come from. -/
def manualProvenance : OrderedDict ℤ String :=
  hosts.foldl (fun d h => if h.parentId.isSome then d.set h.id "manual" else d) .empty

/-- `name_map`. -/
def nameMap : OrderedDict String ℤ := hosts.foldl (fun d h => d.set (py.lower h.name) h.id) .empty

/-- `ip_map`. -/
def ipMap : OrderedDict String ℤ :=
  hosts.foldl (fun d h => (d.set (address h.hostname) h.id).set h.name h.id) .empty

/-- `mac_map`. -/
def macMap : OrderedDict String ℤ :=
  hosts.foldl (fun d h =>
    match h.macAddress with
    | some mac => if mac = "" then d else d.set (py.lower mac) h.id
    | none => d) .empty

end Maps

/-! ### Links -/

/-- A link that an integration proposes. -/
structure Link where
  child : ℤ
  parent : ℤ
  source : String
deriving DecidableEq, Repr

/-- What an integration proposes. -/
structure Proposal where
  gateway : Option ℤ
  links : List Link
deriving DecidableEq

section Propose

variable (py : Text.Lower) (hosts : List PingHost)

/-- The link of a virtual machine or container. -/
def guestLink (g : Json) : Option (Option Link) := do
  let guestName := py.lower (← textField g "name")
  let nodeName := py.lower (← textField g "node")
  if guestName = "" ∨ nodeName = "" then return none
  match known ((nameMap py hosts).get guestName), known ((nameMap py hosts).get nodeName) with
  | some guestId, some nodeId =>
    return if guestId ≠ nodeId then some ⟨guestId, nodeId, "proxmox"⟩ else none
  | _, _ => return none

/-- The links of a Proxmox snapshot. -/
def proxmoxLinks (data : Json) : Option Proposal := do
  let guests ← sumItems (← field data "vms" (.arr [])) (← field data "containers" (.arr []))
  let links ← guests.mapM (guestLink py hosts)
  return ⟨none, links.reduceOption⟩

/-- The UniFi devices that are hosts. -/
structure Devices where
  gwId : Option ℤ
  swIds : List ℤ
  apIds : List ℤ
  devMacToPh : OrderedDict String ℤ

def noDevices : Devices := ⟨none, [], [], .empty⟩

def gatewayTypes : List String := ["ugw", "usg", "udm", "udmpro", "uxg"]

/-- A device. -/
def addDevice (found : Devices) (dev : Json) : Option Devices := do
  let devIp ← textField dev "ip"
  let devName ← textField dev "name"
  let devMac := py.lower (← textField dev "mac")
  let dtype := (← field dev "type" (.str "")).str?
  match (known ((ipMap hosts).get devIp)).or ((known ((ipMap hosts).get devName)).or
      (known ((nameMap py hosts).get (py.lower devName)))) with
  | none => return found
  | some phId =>
    let macs := if devMac = "" then found.devMacToPh else found.devMacToPh.set devMac phId
    if dtype.any (· ∈ gatewayTypes) then
      return { found with gwId := some phId, devMacToPh := macs }
    else if dtype = some "usw" then
      return { found with swIds := found.swIds ++ [phId], devMacToPh := macs }
    else if dtype = some "uap" then
      return { found with apIds := found.apIds ++ [phId], devMacToPh := macs }
    else return { found with devMacToPh := macs }

/-- The links of switches and access points, if there is a gateway. -/
def Devices.links (found : Devices) : List Link :=
  match found.gwId with
  | none => []
  | some gwId =>
    found.swIds.map (fun swId => ⟨swId, gwId, "unifi"⟩) ++
      found.apIds.map fun apId => ⟨apId, found.swIds.headD gwId, "unifi"⟩

/-- The link of a client. The name of its host is looked up last. -/
def clientLink (macs : OrderedDict String ℤ) (cl : Json) : Option (Option Link) := do
  let clIp ← textField cl "ip"
  let clMac := py.lower (← textField cl "mac")
  let swMac := py.lower (← textField cl "sw_mac")
  if swMac = "" then return none
  let clHostId ←
    match (known ((ipMap hosts).get clIp)).or (known ((macMap py hosts).get clMac)) with
    | some id => some (some id)
    | none => do
      let hostname ← textField cl "hostname"
      some (known ((nameMap py hosts).get (py.lower hostname)))
  match clHostId, known (macs.get swMac) with
  | some clHostId, some swHostId =>
    return if swHostId = clHostId then none else some ⟨clHostId, swHostId, "unifi"⟩
  | _, _ => return none

/-- The links of a UniFi snapshot. -/
def unifiLinks (data : Json) : Option Proposal := do
  let devices ← field data "devices" (.arr [])
  let clients ← field data "clients" (.arr [])
  let found ← (← loopItems devices).foldlM (addDevice py hosts) noDevices
  let links ← (← loopItems clients).mapM (clientLink py hosts found.devMacToPh)
  return ⟨found.gwId, found.links ++ links.reduceOption⟩

/-- What a configuration proposes. -/
def propose (cfg : Config) : Option Proposal :=
  match cfg.snapshot with
  | some ⟨true, some data⟩ =>
    if cfg.type = "proxmox" then proxmoxLinks py hosts data
    else if cfg.type = "unifi" then unifiLinks py hosts data
    else some ⟨none, []⟩
  | _ => some ⟨none, []⟩

/-- The configurations that are read. -/
def selected (configs : List Config) : List Config :=
  configs.filter fun cfg => cfg.enabled && cfg.type ∈ ["proxmox", "unifi"]

end Propose

/-! ### The topology -/

/-- The topology, with where its links come from and the gateways. -/
structure Build where
  topology : Topology
  provenance : OrderedDict ℤ String
  gateways : Finset ℤ

/-- A proposed link, which is added where the host has no parent. -/
def Build.link (b : Build) (l : Link) : Build :=
  if b.topology.parent l.child = none then
    { b with
      topology := b.topology.set l.child (some l.parent)
      provenance := b.provenance.set l.child l.source }
  else b

/-- The links of a configuration. -/
def Build.add (b : Build) (p : Proposal) : Build :=
  let gateways := match p.gateway with
    | some gwId => insert gwId b.gateways
    | none => b.gateways
  p.links.foldl Build.link { b with gateways := gateways }

section Topology

variable (py : Text.Lower) (hosts : List PingHost)

/-- The topology before the configurations. -/
def manualBuild : Build := ⟨manualTopology hosts, manualProvenance hosts, ∅⟩

/-- `build_topology`. -/
def buildTopology (configs : List Config) : Option Build :=
  (selected configs).foldlM (fun b cfg => (propose py hosts cfg).map b.add) (manualBuild hosts)

/-- The links that are proposed, in order. -/
def proposedLinks (configs : List Config) : Option (List Link) :=
  ((selected configs).mapM (propose py hosts)).map fun proposals =>
    proposals.flatMap Proposal.links

end Topology

/-- The topology after a link. -/
def linked (topology : Topology) (l : Link) : Topology :=
  if topology.parent l.child = none then topology.set l.child (some l.parent) else topology

/-- **No link closes a cycle**: where the host of a link has no parent yet, the link leads neither
to the host itself nor to a host below it. -/
def Guarded : Topology → List Link → Prop
  | _, [] => True
  | topology, l :: links =>
    (topology.parent l.child = none →
      l.parent ≠ l.child ∧ l.child ∉ getAncestors topology l.parent) ∧
      Guarded (linked topology l) links

variable {py : Text.Lower} {hosts : List PingHost} {configs : List Config} {out b : Build}
  {topology : Topology} {links : List Link}

theorem parent_set (topology : Topology) (child : ℤ) (parent : Option ℤ) :
    Topology.parent (topology.set child parent) = Function.update topology.parent child parent := by
  funext host
  rw [Topology.parent, OrderedDict.get_set, Function.update_apply]
  split_ifs
  · rfl
  · rfl

theorem topology_link (b : Build) (l : Link) : (b.link l).topology = linked b.topology l := by
  rw [Build.link, linked]
  split_ifs
  · rfl
  · rfl

theorem topology_foldl_link (b : Build) :
    (links.foldl Build.link b).topology = links.foldl linked b.topology := by
  induction links generalizing b with
  | nil => rfl
  | cons l links ih => rw [List.foldl_cons, ih, topology_link, List.foldl_cons]

theorem topology_add (b : Build) (p : Proposal) :
    (b.add p).topology = p.links.foldl linked b.topology := topology_foldl_link _

theorem topology_foldl_add (proposals : List Proposal) (b : Build) :
    (proposals.foldl Build.add b).topology =
      (proposals.flatMap Proposal.links).foldl linked b.topology := by
  induction proposals generalizing b with
  | nil => rfl
  | cons p proposals ih =>
    rw [List.foldl_cons, ih, topology_add, List.flatMap_cons, List.foldl_append]

/-- The configurations in turn. -/
theorem foldlM_propose (cfgs : List Config) (b : Build) :
    cfgs.foldlM (fun b cfg => (propose py hosts cfg).map b.add) b =
      (cfgs.mapM (propose py hosts)).map fun proposals => proposals.foldl Build.add b := by
  induction cfgs generalizing b with
  | nil => rfl
  | cons cfg cfgs ih =>
    rw [List.foldlM_cons, List.mapM_cons]
    cases propose py hosts cfg with
    | none => rfl
    | some p =>
      simp only [Option.map_some, Option.bind_eq_bind, Option.bind_some, ih]
      cases cfgs.mapM (propose py hosts) with
      | none => rfl
      | some proposals => rfl

/-- **The topology** is that of the entered parents, with the proposed links in order. -/
theorem exists_links (hbuild : buildTopology py hosts configs = some out) :
    ∃ links, proposedLinks py hosts configs = some links ∧
      out.topology = links.foldl linked (manualTopology hosts) := by
  rw [buildTopology, foldlM_propose, Option.map_eq_some_iff] at hbuild
  obtain ⟨proposals, hproposals, rfl⟩ := hbuild
  refine ⟨proposals.flatMap Proposal.links, ?_, topology_foldl_add proposals _⟩
  rw [proposedLinks, hproposals, Option.map_some]

/-! ### Cycles -/

theorem acyclic_of_linked {l : Link} (h : Acyclic (linked topology l).parent) :
    Acyclic topology.parent := by
  rw [linked] at h
  split_ifs at h with hnone
  · rw [parent_set, acyclic_update_iff hnone] at h
    exact h.1
  · exact h

/-- A link makes no cycle if it is guarded. -/
theorem acyclic_linked_iff {l : Link} (h : Acyclic topology.parent) :
    Acyclic (linked topology l).parent ↔ (topology.parent l.child = none →
      l.parent ≠ l.child ∧ l.child ∉ getAncestors topology l.parent) := by
  rw [linked]
  split_ifs with hnone
  · rw [parent_set, acyclic_update_iff hnone, mem_getAncestors]
    exact ⟨fun hnew _ => hnew.2, fun hnew => ⟨h, hnew hnone⟩⟩
  · exact ⟨fun _ hnone' => absurd hnone' hnone, fun _ => h⟩

/-- A cycle stays. -/
theorem acyclic_of_foldl_linked (h : Acyclic (links.foldl linked topology).parent) :
    Acyclic topology.parent := by
  induction links generalizing topology with
  | nil => exact h
  | cons l links ih => exact acyclic_of_linked (ih h)

theorem acyclic_foldl_linked_iff (h : Acyclic topology.parent) :
    Acyclic (links.foldl linked topology).parent ↔ Guarded topology links := by
  induction links generalizing topology with
  | nil => exact iff_of_true h trivial
  | cons l links ih =>
    rw [List.foldl_cons, Guarded, ← acyclic_linked_iff h]
    constructor
    · intro hfinal
      have hl := acyclic_of_foldl_linked hfinal
      exact ⟨hl, (ih hl).mp hfinal⟩
    · rintro ⟨hl, hguarded⟩
      exact (ih hl).mpr hguarded

/-- **No cycle is added** if and only if no proposed link closes one. -/
theorem acyclic_iff (hbuild : buildTopology py hosts configs = some out)
    (hmanual : Acyclic (manualTopology hosts).parent) :
    (Acyclic out.topology.parent ∧ ∀ host, out.topology.parent host ≠ some host) ↔
      ∃ links, proposedLinks py hosts configs = some links ∧
        Guarded (manualTopology hosts) links := by
  obtain ⟨links, hlinks, htopology⟩ := exists_links hbuild
  rw [htopology, hlinks]
  constructor
  · rintro ⟨hacyclic, -⟩
    exact ⟨links, rfl, (acyclic_foldl_linked_iff hmanual).mp hacyclic⟩
  · rintro ⟨links', hlinks', hguarded⟩
    obtain rfl := Option.some.inj hlinks'
    have hacyclic := (acyclic_foldl_linked_iff hmanual).mpr hguarded
    exact ⟨hacyclic, fun host hself => hacyclic host (above_of_parent hself)⟩

/-! ### A gateway with a switch -/

/-- A router that UniFi lists a second time, as the switch that is built into it. -/
def gatewaySnapshot : Json := .obj
  [("devices", .arr
    [.obj [("ip", .str "10.0.0.1"), ("type", .str "udm")],
      .obj [("ip", .str "10.0.0.1"), ("type", .str "usw")]])]

def gatewayHost : PingHost := ⟨1, "gw", "10.0.0.1", none, none⟩

def gatewayConfig : Config := ⟨"unifi", true, some ⟨true, some gatewaySnapshot⟩⟩

theorem propose_gateway :
    (selected [gatewayConfig]).mapM (propose .asciiOnly [gatewayHost]) =
      some [⟨some 1, [⟨1, 1, "unifi"⟩]⟩] := by
  decide

/-- The topology of the router. -/
def gatewayBuild : Build := (manualBuild [gatewayHost]).add ⟨some 1, [⟨1, 1, "unifi"⟩]⟩

theorem buildTopology_gateway :
    buildTopology .asciiOnly [gatewayHost] [gatewayConfig] = some gatewayBuild := by
  rw [buildTopology, foldlM_propose, propose_gateway]
  rfl

/-- A host alone has no cycle. -/
theorem acyclic_gatewayHost : Acyclic (manualTopology [gatewayHost]).parent := fun _ habove => by
  obtain ⟨p, hp, -⟩ := above_iff.mp habove
  have hmem := parent_eq_some.mp hp
  simp [manualTopology, gatewayHost, OrderedDict.set, OrderedDict.empty] at hmem

theorem acyclic_iff_sample :
    (Acyclic gatewayBuild.topology.parent ∧
        ∀ host, gatewayBuild.topology.parent host ≠ some host) ↔
      ∃ links, proposedLinks .asciiOnly [gatewayHost] [gatewayConfig] = some links ∧
        Guarded (manualTopology [gatewayHost]) links :=
  acyclic_iff buildTopology_gateway acyclic_gatewayHost

/-- **The router becomes its own parent.** -/
theorem not_acyclic_sample : ∃ out,
    buildTopology .asciiOnly [gatewayHost] [gatewayConfig] = some out ∧
      Acyclic (manualTopology [gatewayHost]).parent ∧
      ¬(Acyclic out.topology.parent ∧ ∀ host, out.topology.parent host ≠ some host) := by
  refine ⟨gatewayBuild, buildTopology_gateway, acyclic_gatewayHost, fun h => h.2 1 ?_⟩
  exact parent_eq_some.mpr (by decide)

end Nodeglow.HostTopology
