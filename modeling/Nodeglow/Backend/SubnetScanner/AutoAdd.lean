import Nodeglow.Backend.NetSafety.Addresses

/-!
# Hosts of a subnet scan

A scan pings the addresses of a network and looks up their DNS names. The addresses that answer are
added as hosts, unless they are monitored already. To find that out, the monitored hosts are indexed
by what their hostname says, cut at the first colon, and by their name; an address is looked up
under itself, under its DNS name, and under the first label of that.

The text form of addresses and the lower case of texts are given. DNS names have the characters that
a resolver lets through.

## Main results

* `buildMonitoredIndex_isSome` — what is indexed.
* `matchHost_isSome` — what is looked up.

Source: `backend/routers/subnet_scanner.py`, lines 70–144; `backend/models/ping.py`.
-/

namespace Nodeglow.SubnetScanner

open NetSafety (Ip IpText)

/-- The characters of addresses. -/
def addressChars : List Char := "0123456789abcdef.:".toList

/-- The text form of addresses, with the characters it has: an IPv4 address has dots and no colon,
and an IPv6 address has two colons at least. -/
structure AddressText extends IpText where
  mem_chars : ∀ addr, ∀ c ∈ (str addr).toList, c ∈ addressChars
  dot_v4 : ∀ n, '.' ∈ (str (.v4 n)).toList
  colon_v4 : ∀ n, ':' ∉ (str (.v4 n)).toList
  colons_v6 : ∀ n, 2 ≤ (str (.v6 n)).toList.count ':'

/-- Python: the text form of addresses and `str.lower`. -/
structure Python where
  text : AddressText
  toLower : Text.Lower

def Python.ip (py : Python) (addr : Ip) : String := py.text.str addr

def Python.lower (py : Python) (s : String) : String := py.toLower.lower s

/-- What a scan finds out about an address of the network. -/
structure ScanResult where
  address : Ip
  alive : Bool
  dnsName : Option String
  chars_dnsName : ∀ dns ∈ dnsName, ∀ c ∈ dns.toList, c.isAlphanum ∨ c ∈ ['-', '.', '_']

/-- `PingHost`. -/
structure PingHost where
  name : String
  hostname : String
  ipAddress : Option String
  checkType : String
  enabled : Bool
  source : String
  sourceDetail : Option String
  siteId : Option ℕ

variable (py : Python)

/-! ### The index -/

/-- The text without a prefix, if it has it. -/
def dropPrefix (start s : String) : String :=
  if start.toList <+: s.toList then String.ofList (s.toList.drop start.toList.length) else s

/-- The hostname of a host, without the scheme and the path of a URL. -/
def authority (h : PingHost) : String :=
  let hostname := dropPrefix "http://" (dropPrefix "https://" (Text.strip h.hostname))
  String.ofList (hostname.toList.takeWhile (· ≠ '/'))

/-- The hostname up to its first colon. -/
def cutHostname (h : PingHost) : String :=
  String.ofList ((authority h).toList.takeWhile (· ≠ ':'))

/-- A text as a key, if it is one. -/
def key (s : String) : Option String := if s = "" then none else some (py.lower s)

/-- The key of the hostname. -/
def hostKey (h : PingHost) : Option String := key py (cutHostname h)

/-- The key of the name. -/
def nameKey (h : PingHost) : Option String := key py (Text.strip h.name)

/-- The index with one more entry, if there is a key. -/
def putKey (k : Option String) (h : PingHost) (idx : String → Option PingHost) :
    String → Option PingHost :=
  k.elim idx fun k => Function.update idx k (some h)

/-- `_build_monitored_index`. -/
def buildMonitoredIndex (allHosts : List PingHost) : String → Option PingHost :=
  allHosts.foldl (fun idx h => putKey (nameKey py h) h (putKey (hostKey py h) h idx)) fun _ => none

/-- The DNS name that was found. -/
def foundName (r : ScanResult) : Option String := r.dnsName.filter (· ≠ "")

/-- `dns.split(".")[0]`. -/
def firstLabel (dns : String) : String := String.ofList (dns.toList.takeWhile (· ≠ '.'))

/-- `_match_host`. -/
def matchHost (r : ScanResult) (idx : String → Option PingHost) : Option PingHost :=
  (idx (py.ip r.address)).or <| (foundName r).bind fun dns =>
    (idx (py.lower dns)).or (idx (py.lower (firstLabel dns)))

/-! ### Adding -/

/-- The state of the loop: the index, the known hostnames, and the new hosts with their names. -/
structure Adding where
  idx : String → Option PingHost
  existingIps : List String
  added : List PingHost
  addedNames : List String

/-- `display_name`. -/
def displayName (r : ScanResult) : String := ((foundName r).map firstLabel).getD (py.ip r.address)

/-- The host for a scan result. -/
def newHost (siteId : Option ℕ) (r : ScanResult) : PingHost where
  name := displayName py r
  hostname := py.ip r.address
  ipAddress := none
  checkType := "icmp"
  enabled := true
  source := "scanner"
  sourceDetail := some (((foundName r).map fun dns => "Auto-scan (" ++ dns ++ ")").getD "Auto-scan")
  siteId := siteId

/-- One scan result. -/
def addResult (siteId : Option ℕ) (s : Adding) (r : ScanResult) : Adding :=
  let ip := py.ip r.address
  if !r.alive then s
  else if (matchHost py r s.idx).isSome then s
  else if ip ∈ s.existingIps then s
  else if (py.text.ipAddress ip).isNone then s
  else
    { idx := Function.update s.idx ip (some (newHost py siteId r))
      existingIps := ip :: s.existingIps
      added := s.added ++ [newHost py siteId r]
      addedNames := s.addedNames ++ [displayName py r ++ " (" ++ ip ++ ")"] }

/-- The state before the loop. -/
def startAdding (hosts : List PingHost) : Adding where
  idx := buildMonitoredIndex py hosts
  existingIps := hosts.map fun h => Text.strip h.hostname
  added := []
  addedNames := []

/-- `auto_add_hosts`, with the hosts it adds. -/
def autoAddHosts (siteId : Option ℕ) (hosts : List PingHost) (results : List ScanResult) : Adding :=
  results.foldl (addResult py siteId) (startAdding py hosts)

/-! ### What is indexed and looked up -/

/-- A host is indexed under a key. -/
def IndexedAs (k : String) (h : PingHost) : Prop := hostKey py h = some k ∨ nameKey py h = some k

/-- A key that is looked up for a scan result. -/
def LooksUp (r : ScanResult) (k : String) : Prop :=
  k = py.ip r.address ∨ ∃ dns ∈ foundName r, k = py.lower dns ∨ k = py.lower (firstLabel dns)

section Index

variable {py} {hosts : List PingHost} {r : ScanResult} {h : PingHost} {k : String}
  {idx : String → Option PingHost}

theorem putKey_isSome (key : Option String) :
    (putKey key h idx k).isSome ↔ key = some k ∨ (idx k).isSome := by
  cases key with
  | none => simp [putKey]
  | some k' =>
    by_cases hk : k = k'
    · simp [putKey, hk]
    · simp [putKey, hk, Ne.symm hk]

/-- **What is indexed**: the keys of the hostnames and of the names. -/
theorem buildMonitoredIndex_isSome :
    (buildMonitoredIndex py hosts k).isSome ↔ ∃ h ∈ hosts, IndexedAs py k h := by
  unfold buildMonitoredIndex
  induction hosts using List.reverseRecOn with
  | nil => simp
  | append_singleton hosts h ih =>
    have hsplit : (∃ h' ∈ hosts ++ [h], IndexedAs py k h') ↔
        (∃ h' ∈ hosts, IndexedAs py k h') ∨ IndexedAs py k h := by
      simp only [List.mem_append, List.mem_singleton, or_and_right, exists_or, exists_eq_left]
    rw [List.foldl_append, List.foldl_cons, List.foldl_nil, putKey_isSome, putKey_isSome, ih,
      hsplit, IndexedAs, ← or_assoc, or_comm, or_comm (a := nameKey py h = some k)]

/-- **What is looked up**: the address, the DNS name, and its first label. -/
theorem matchHost_isSome :
    (matchHost py r idx).isSome ↔ ∃ k, LooksUp py r k ∧ (idx k).isSome := by
  simp only [matchHost, Option.isSome_or, Bool.or_eq_true, LooksUp, or_and_right, exists_or,
    exists_eq_left]
  refine or_congr_right ?_
  cases foundName r with
  | none => simp
  | some dns => simp [or_and_right, exists_or]

end Index

end Nodeglow.SubnetScanner
