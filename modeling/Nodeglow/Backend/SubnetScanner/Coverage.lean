import Mathlib.Data.List.Nodup
import Nodeglow.Backend.SubnetScanner.AutoAdd

/-!
# What a subnet scan adds

An alive address is to be added once, unless a monitored host has it, as its hostname or its IP
address, or bears the DNS name that was found. What is added is this exactly where the index tells
it: it does not know the IP addresses of hosts, cuts IPv6 addresses, and takes a host for another
one with the same first label (`not_scansRight`).

## Main results

* `inv_autoAddHosts` — what the loop knows and adds.
* `added_again` — a second run adds nothing.
* `scansRight_iff` — when the scan adds the right hosts.

Source: `backend/routers/subnet_scanner.py`, lines 70–144.
-/

namespace Nodeglow.SubnetScanner

open NetSafety (Ip)

variable (py : Python)

/-! ### What is to be added -/

/-- The host in a hostname: an IPv6 address in brackets or without, and else what stands before the
port. -/
def hostPart (h : PingHost) : String :=
  let s := (authority h).toList
  if s.head? = some '[' then String.ofList (s.tail.takeWhile (· ≠ ']'))
  else if 2 ≤ s.count ':' then String.ofList s
  else String.ofList (s.takeWhile (· ≠ ':'))

/-- A host has an address. -/
def HasAddress (h : PingHost) (addr : Ip) : Prop :=
  py.text.ipAddress (hostPart h) = some addr ∨
    ∃ s ∈ h.ipAddress, py.text.ipAddress (Text.strip s) = some addr

/-- A host bears a name, as its hostname or as its name. -/
def BearsName (h : PingHost) (dns : String) : Prop :=
  key py (hostPart h) = some (py.lower dns) ∨ nameKey py h = some (py.lower dns)

/-- **A monitored host is known** as the one with an address. -/
def Knows (h : PingHost) (r : ScanResult) : Prop :=
  HasAddress py h r.address ∨ ∃ dns ∈ foundName r, BearsName py h dns

instance (h : PingHost) (r : ScanResult) : Decidable (Knows py h r) := by
  unfold Knows HasAddress BearsName
  infer_instance

/-- The addresses that are to be added: alive ones that no monitored host is known as, each once. -/
def newAddresses (hosts : List PingHost) (results : List ScanResult) : List Ip :=
  results.foldl (fun found r =>
    if r.alive ∧ r.address ∉ found ∧ ¬∃ h ∈ hosts, Knows py h r then found ++ [r.address]
    else found) []

/-- **The scan adds the right hosts**: result by result those that are to be added, none twice, and
a second run adds nothing. -/
structure ScansRight (siteId : Option ℕ) (hosts : List PingHost) (results : List ScanResult) :
    Prop where
  adds : ∀ pre, pre <+: results → (autoAddHosts py siteId hosts pre).added.map PingHost.hostname =
    (newAddresses py hosts pre).map py.ip
  once : ((autoAddHosts py siteId hosts results).added.map PingHost.hostname).Nodup
  again : (autoAddHosts py siteId (hosts ++ (autoAddHosts py siteId hosts results).added)
    results).added = []

/-! ### When it does -/

/-- A host that is matched and right: its hostname is the address, or the address or the DNS name
with a scheme, a path or a port, or its name is the DNS name. -/
def Direct (h : PingHost) (r : ScanResult) : Prop :=
  Text.strip h.hostname = py.ip r.address ∨
    (hostKey py h = some (py.ip r.address) ∧ py.text.ipAddress (hostPart h) = some r.address) ∨
      ∃ dns ∈ foundName r,
        (hostKey py h = some (py.lower dns) ∧ key py (hostPart h) = some (py.lower dns)) ∨
          nameKey py h = some (py.lower dns)

/-- A host that is matched by its name, which is the address, by a hostname that is cut at the wrong
colon, or by the first label of the DNS name. -/
def Misleads (h : PingHost) (r : ScanResult) : Prop :=
  nameKey py h = some (py.ip r.address) ∨
    (hostKey py h = some (py.ip r.address) ∧ py.text.ipAddress (hostPart h) ≠ some r.address) ∨
      ∃ dns ∈ foundName r,
        (hostKey py h = some (py.lower dns) ∧ key py (hostPart h) ≠ some (py.lower dns)) ∨
          IndexedAs py (py.lower (firstLabel dns)) h

/-- A host that is right by its IP address, or by the host in its hostname. -/
def Overlooked (h : PingHost) (r : ScanResult) : Prop :=
  (∃ s ∈ h.ipAddress, py.text.ipAddress (Text.strip s) = some r.address) ∨
    py.text.ipAddress (hostPart h) = some r.address ∨
      ∃ dns ∈ foundName r, key py (hostPart h) = some (py.lower dns)

/-- The DNS name, or its first label, is the text of an address that was added before. -/
def NamesAdded (added : List Ip) (r : ScanResult) : Prop :=
  ∃ addr ∈ added, ∃ dns ∈ foundName r,
    py.ip addr = py.lower dns ∨ py.ip addr = py.lower (firstLabel dns)

/-- **The index tells** whether an address is to be added: it was added before, or a host is matched
and right, or there is one that misleads exactly where there is one that is overlooked. -/
def Clear (hosts : List PingHost) (added : List Ip) (r : ScanResult) : Prop :=
  r.address ∈ added ∨ (∃ h ∈ hosts, Direct py h r) ∨
    ((∃ h ∈ hosts, Misleads py h r) ∨ NamesAdded py added r ↔ ∃ h ∈ hosts, Overlooked py h r)

/-! ### Texts of addresses -/

section Addresses

variable {py} {addr addr' : Ip} {h : PingHost} {c : Char}

theorem ip_injective (py : Python) : Function.Injective py.ip := fun addr addr' heq => by
  have hparse := py.text.ipAddress_str addr
  have hip : py.text.str addr = py.text.str addr' := heq
  rw [hip, py.text.ipAddress_str] at hparse
  exact (Option.some.inj hparse).symm

theorem addressChars_plain : ∀ c ∈ addressChars,
    Text.isSpace c = false ∧ c ≠ '/' ∧ c ≠ '[' ∧ c.toNat < 128 ∧ c.toLower = c :=
  Text.forall_mem_of_all (by decide)

theorem plain_of_mem (hc : c ∈ (py.ip addr).toList) :
    Text.isSpace c = false ∧ c ≠ '/' ∧ c ≠ '[' ∧ c.toNat < 128 ∧ c.toLower = c :=
  addressChars_plain c (py.text.mem_chars addr c hc)

theorem strip_ip (addr : Ip) : Text.strip (py.ip addr) = py.ip addr :=
  Text.strip_of_forall fun _ hc => (plain_of_mem hc).1

theorem lower_ip (addr : Ip) : py.lower (py.ip addr) = py.ip addr := by
  rw [Python.lower, py.toLower.lower_ascii _ fun c hc => (plain_of_mem hc).2.2.2.1, Text.asciiLower,
    List.map_congr_left fun c hc => (plain_of_mem hc).2.2.2.2, List.map_id', String.ofList_toList]

/-- A text without a slash has no scheme. -/
theorem dropPrefix_of_notMem {start s : String} (hstart : '/' ∈ start.toList)
    (hs : '/' ∉ s.toList) : dropPrefix start s = s :=
  if_neg fun hwith => hs (hwith.subset hstart)

/-- An address as the hostname stays as it is. -/
theorem authority_of_strip (hh : Text.strip h.hostname = py.ip addr) :
    authority h = py.ip addr := by
  have hslash : '/' ∉ (py.ip addr).toList := fun hmem => (plain_of_mem hmem).2.1 rfl
  have hall : ∀ c ∈ (py.ip addr).toList, decide (c ≠ '/') = true := fun c hc =>
    decide_eq_true (plain_of_mem hc).2.1
  rw [authority, hh, dropPrefix_of_notMem (by decide) hslash,
    dropPrefix_of_notMem (by decide) hslash, List.takeWhile_eq_self_iff.mpr hall,
    String.ofList_toList]

theorem takeWhile_colon_v4 (n : BitVec 32) :
    String.ofList ((py.ip (.v4 n)).toList.takeWhile (· ≠ ':')) = py.ip (.v4 n) := by
  have hall : ∀ c ∈ (py.ip (.v4 n)).toList, decide (c ≠ ':') = true := fun c hc =>
    decide_eq_true fun heq => py.text.colon_v4 n (heq ▸ hc)
  rw [List.takeWhile_eq_self_iff.mpr hall, String.ofList_toList]

/-- So does the host in it. -/
theorem hostPart_of_strip (hh : Text.strip h.hostname = py.ip addr) : hostPart h = py.ip addr := by
  have hbracket : (py.ip addr).toList.head? ≠ some '[' := fun hhead =>
    (plain_of_mem (List.mem_of_mem_head? hhead)).2.2.1 rfl
  rw [hostPart, authority_of_strip hh]
  simp only [hbracket, if_false]
  cases addr with
  | v4 n =>
    split_ifs
    · exact String.ofList_toList
    · exact takeWhile_colon_v4 n
  | v6 n =>
    have hcount : 2 ≤ (py.ip (.v6 n)).toList.count ':' := py.text.colons_v6 n
    rw [if_pos hcount, String.ofList_toList]

theorem key_of_ne {s : String} (hs : s ≠ "") : key py s = some (py.lower s) := if_neg hs

/-- The text of an address is its own key. -/
theorem key_ip (addr : Ip) : key py (py.ip addr) = some (py.ip addr) := by
  have hne : py.ip addr ≠ "" := fun heq => by
    cases addr with
    | v4 n =>
      have hdot : '.' ∈ (py.ip (.v4 n)).toList := py.text.dot_v4 n
      rw [heq] at hdot
      cases hdot
    | v6 n =>
      have hcount : 2 ≤ (py.ip (.v6 n)).toList.count ':' := py.text.colons_v6 n
      rw [heq] at hcount
      cases hcount
  rw [key_of_ne hne, lower_ip]

theorem hostKey_of_v4 {n : BitVec 32} (hh : Text.strip h.hostname = py.ip (.v4 n)) :
    hostKey py h = some (py.ip (.v4 n)) := by
  have hcut : cutHostname h = py.ip (.v4 n) := by
    rw [cutHostname, authority_of_strip hh]
    exact takeWhile_colon_v4 n
  rw [hostKey, hcut, key_ip]

/-- A text without colons is that of no IPv6 address. -/
theorem exists_v4_of_notMem (h : ':' ∉ (py.ip addr).toList) : ∃ n, addr = .v4 n := by
  cases addr with
  | v4 n => exact ⟨n, rfl⟩
  | v6 n =>
    have hcount : 2 ≤ (py.ip (.v6 n)).toList.count ':' := py.text.colons_v6 n
    rw [List.count_eq_zero.mpr h] at hcount
    omega

end Addresses

/-! ### The loop -/

/-- A monitored host is matched. -/
def Matches (h : PingHost) (r : ScanResult) : Prop :=
  (∃ k, LooksUp py r k ∧ IndexedAs py k h) ∨ Text.strip h.hostname = py.ip r.address

/-- An address is not added: it was added before, a monitored host is matched, or a new one. -/
def Skips (hosts : List PingHost) (added : List Ip) (r : ScanResult) : Prop :=
  r.address ∈ added ∨ (∃ h ∈ hosts, Matches py h r) ∨ NamesAdded py added r

open Classical in
/-- The addresses that are added. -/
noncomputable def addedAddresses (hosts : List PingHost) (results : List ScanResult) : List Ip :=
  results.foldl (fun added r =>
    if r.alive ∧ ¬Skips py hosts added r then added ++ [r.address] else added) []

open Classical in
theorem addedAddresses_append_singleton (py : Python) (hosts : List PingHost)
    (results : List ScanResult) (r : ScanResult) :
    addedAddresses py hosts (results ++ [r]) =
      if r.alive ∧ ¬Skips py hosts (addedAddresses py hosts results) r then
        addedAddresses py hosts results ++ [r.address]
      else addedAddresses py hosts results := by
  rw [addedAddresses, List.foldl_append, List.foldl_cons, List.foldl_nil]
  rfl

/-- What the loop knows and has added. -/
structure Inv (hosts : List PingHost) (added : List Ip) (s : Adding) : Prop where
  hostnames : s.added.map PingHost.hostname = added.map py.ip
  idx : ∀ k, (s.idx k).isSome ↔ (∃ h ∈ hosts, IndexedAs py k h) ∨ ∃ addr ∈ added, k = py.ip addr
  existing : ∀ x, x ∈ s.existingIps ↔
    (∃ h ∈ hosts, Text.strip h.hostname = x) ∨ ∃ addr ∈ added, x = py.ip addr

section Run

variable {py} {siteId : Option ℕ} {hosts : List PingHost} {results : List ScanResult}
  {r : ScanResult} {added : List Ip} {s : Adding} {h : PingHost}

theorem inv_startAdding (py : Python) (hosts : List PingHost) :
    Inv py hosts [] (startAdding py hosts) where
  hostnames := rfl
  idx k := by simp [startAdding, buildMonitoredIndex_isSome]
  existing x := by simp [startAdding]

/-- An alive address is skipped where the loop finds it. -/
theorem Inv.skips_iff (hs : Inv py hosts added s) :
    (matchHost py r s.idx).isSome ∨ py.ip r.address ∈ s.existingIps ↔ Skips py hosts added r := by
  have hadded : (∃ addr ∈ added, py.ip r.address = py.ip addr) ↔ r.address ∈ added := by
    constructor
    · rintro ⟨addr, haddr, heq⟩
      exact ip_injective py heq ▸ haddr
    · exact fun hmem => ⟨_, hmem, rfl⟩
  have hlooks : (∃ k, LooksUp py r k ∧ ∃ addr ∈ added, k = py.ip addr) ↔
      r.address ∈ added ∨ NamesAdded py added r := by
    rw [← hadded]
    constructor
    · rintro ⟨k, rfl | ⟨dns, hdns, hk⟩, addr, haddr, heq⟩
      · exact .inl ⟨addr, haddr, heq⟩
      · exact .inr ⟨addr, haddr, dns, hdns, heq ▸ hk⟩
    · rintro (⟨addr, haddr, heq⟩ | ⟨addr, haddr, dns, hdns, hk⟩)
      · exact ⟨_, .inl rfl, addr, haddr, heq⟩
      · exact ⟨_, .inr ⟨dns, hdns, hk⟩, addr, haddr, rfl⟩
  have hmatch : (∃ h ∈ hosts, Matches py h r) ↔
      (∃ k, LooksUp py r k ∧ ∃ h ∈ hosts, IndexedAs py k h) ∨
        ∃ h ∈ hosts, Text.strip h.hostname = py.ip r.address := by
    simp only [Matches, and_or_left, exists_or]
    refine or_congr_left ⟨?_, ?_⟩
    · rintro ⟨h, hh, k, hk, hindexed⟩
      exact ⟨k, hk, h, hh, hindexed⟩
    · rintro ⟨k, hk, h, hh, hindexed⟩
      exact ⟨h, hh, k, hk, hindexed⟩
  rw [matchHost_isSome, hs.existing, hadded, Skips, hmatch]
  simp only [hs.idx, and_or_left, exists_or, hlooks]
  grind

theorem addResult_of_skip (hs : Inv py hosts added s)
    (hskip : ¬(r.alive = true ∧ ¬Skips py hosts added r)) : addResult py siteId s r = s := by
  rw [addResult]
  cases halive : r.alive with
  | false => rfl
  | true =>
    have hfound := hs.skips_iff.mpr (not_not.mp fun hnot => hskip ⟨halive, hnot⟩)
    by_cases hmatch : (matchHost py r s.idx).isSome = true
    · simp [hmatch]
    · simp [hmatch, hfound.resolve_left hmatch]

theorem Inv.addResult (hs : Inv py hosts added s) (halive : r.alive = true)
    (hnew : ¬Skips py hosts added r) :
    Inv py hosts (added ++ [r.address]) (addResult py siteId s r) := by
  obtain ⟨hmatch, hexisting⟩ := not_or.mp (mt hs.skips_iff.mp hnew)
  have hvalid : (py.text.ipAddress (py.ip r.address)).isNone = false := by
    rw [Python.ip, py.text.ipAddress_str]
    rfl
  have hstep : SubnetScanner.addResult py siteId s r =
      { idx := Function.update s.idx (py.ip r.address) (some (newHost py siteId r))
        existingIps := py.ip r.address :: s.existingIps
        added := s.added ++ [newHost py siteId r]
        addedNames :=
          s.addedNames ++ [displayName py r ++ " (" ++ py.ip r.address ++ ")"] } := by
    simp [SubnetScanner.addResult, halive, hmatch, hexisting, hvalid]
  rw [hstep]
  refine ⟨?_, fun k => ?_, fun x => ?_⟩
  · rw [List.map_append, hs.hostnames, List.map_append]
    rfl
  · by_cases hk : k = py.ip r.address
    · simp [hk]
    · simp [hk, hs.idx]
  · rw [List.mem_cons, hs.existing]
    simp only [List.mem_append, List.mem_singleton, or_and_right, exists_or, exists_eq_left]
    grind

/-- **What the loop knows and adds.** -/
theorem inv_autoAddHosts (py : Python) (siteId : Option ℕ) (hosts : List PingHost)
    (results : List ScanResult) :
    Inv py hosts (addedAddresses py hosts results) (autoAddHosts py siteId hosts results) := by
  induction results using List.reverseRecOn with
  | nil => exact inv_startAdding py hosts
  | append_singleton results r ih =>
    rw [addedAddresses_append_singleton, autoAddHosts, List.foldl_append, List.foldl_cons,
      List.foldl_nil]
    rw [autoAddHosts] at ih
    split_ifs with hnew
    · exact ih.addResult hnew.1 hnew.2
    · rw [addResult_of_skip ih hnew]
      exact ih

/-! ### A second run -/

theorem foundName_chars {dns : String} (hdns : dns ∈ foundName r) {c : Char} (hc : c ∈ dns.toList) :
    c.isAlphanum ∨ c ∈ ['-', '.', '_'] :=
  r.chars_dnsName dns (Option.mem_filter_iff.mp hdns).1 c hc

/-- A DNS name in lower case has no colon. -/
theorem colon_lower {dns part : String} (hdns : dns ∈ foundName r)
    (hpart : ∀ c ∈ part.toList, c ∈ dns.toList) : ':' ∉ (py.lower part).toList := by
  have hrange (c : Char) (hc : c ∈ part.toList) : c.toNat < 128 ∧ c.toLower ≠ ':' := by
    rcases foundName_chars hdns (hpart c hc) with halnum | hmem
    · have hnat := Text.toNat_of_isAlphanum halnum
      refine ⟨by omega, fun heq => ?_⟩
      have hcolon : c.toLower.toNat = 58 := by rw [heq]; rfl
      rw [Text.toNat_toLower] at hcolon
      split_ifs at hcolon <;> omega
    · have hall : ∀ c ∈ ['-', '.', '_'], c.toNat < 128 ∧ c.toLower ≠ ':' :=
        Text.forall_mem_of_all (by decide)
      exact hall c hmem
  rw [Python.lower, py.toLower.lower_ascii part fun c hc => (hrange c hc).1, Text.asciiLower,
    String.toList_ofList, List.mem_map]
  rintro ⟨c, hc, heq⟩
  exact (hrange c hc).2 heq

/-- A new host whose address is looked up is matched. -/
theorem matches_of_added {addr : Ip} (hh : h.hostname = py.ip addr)
    (hr : r.address = addr ∨ ∃ dns ∈ foundName r,
      py.ip addr = py.lower dns ∨ py.ip addr = py.lower (firstLabel dns)) : Matches py h r := by
  have hstrip : Text.strip h.hostname = py.ip addr := by rw [hh, strip_ip]
  rcases hr with rfl | ⟨dns, hdns, hname⟩
  · exact .inr hstrip
  · have hcolon : ':' ∉ (py.ip addr).toList := by
      rcases hname with heq | heq
      · exact heq ▸ colon_lower hdns fun _ hc => hc
      · refine heq ▸ colon_lower hdns fun c hc => ?_
        rw [firstLabel, String.toList_ofList] at hc
        exact (List.takeWhile_prefix _).subset hc
    obtain ⟨n, rfl⟩ := exists_v4_of_notMem hcolon
    exact .inl ⟨_, .inr ⟨dns, hdns, hname⟩, .inl (hostKey_of_v4 hstrip)⟩

/-- An added address is that of a new host. -/
theorem Inv.exists_added (hs : Inv py hosts added s) {addr : Ip} (haddr : addr ∈ added) :
    ∃ h ∈ s.added, h.hostname = py.ip addr := by
  have hmem : py.ip addr ∈ s.added.map PingHost.hostname := hs.hostnames ▸ List.mem_map_of_mem haddr
  exact List.mem_map.mp hmem

/-- The addresses of a part of the results stay added. -/
theorem addedAddresses_append (py : Python) (hosts : List PingHost) (pre post : List ScanResult) :
    addedAddresses py hosts pre ⊆ addedAddresses py hosts (pre ++ post) := by
  induction post using List.reverseRecOn with
  | nil => simp
  | append_singleton post r ih =>
    rw [← List.append_assoc, addedAddresses_append_singleton]
    refine List.Subset.trans ih ?_
    split_ifs
    · exact List.subset_append_left _ _
    · exact List.Subset.refl _

/-- An alive address is added, or was skipped before. -/
theorem mem_or_skips (hr : r ∈ results) (halive : r.alive = true) :
    r.address ∈ addedAddresses py hosts results ∨
      Skips py hosts (addedAddresses py hosts results) r := by
  obtain ⟨pre, post, rfl⟩ := List.append_of_mem hr
  have hsub : addedAddresses py hosts pre ⊆ addedAddresses py hosts (pre ++ r :: post) :=
    addedAddresses_append py hosts pre _
  by_cases hskip : Skips py hosts (addedAddresses py hosts pre) r
  · refine .inr ?_
    rcases hskip with hmem | hmatch | ⟨addr, haddr, hname⟩
    · exact .inl (hsub hmem)
    · exact .inr (.inl hmatch)
    · exact .inr (.inr ⟨addr, hsub haddr, hname⟩)
  · refine .inl ?_
    have hnext : r.address ∈ addedAddresses py hosts (pre ++ [r]) := by
      rw [addedAddresses_append_singleton, if_pos ⟨halive, hskip⟩]
      exact List.mem_append_right _ (List.mem_singleton_self _)
    have hlist : pre ++ r :: post = pre ++ [r] ++ post := by simp
    exact hlist ▸ addedAddresses_append py hosts (pre ++ [r]) post hnext

/-- What was added or skipped is skipped in a second run. -/
theorem skips_again (hr : r ∈ results) (halive : r.alive = true) :
    Skips py (hosts ++ (autoAddHosts py siteId hosts results).added) [] r := by
  have hinv := inv_autoAddHosts py siteId hosts results
  have hnew {addr : Ip} (haddr : addr ∈ addedAddresses py hosts results)
      (hr : r.address = addr ∨ ∃ dns ∈ foundName r,
        py.ip addr = py.lower dns ∨ py.ip addr = py.lower (firstLabel dns)) :
      Skips py (hosts ++ (autoAddHosts py siteId hosts results).added) [] r := by
    obtain ⟨h, hh, hname⟩ := hinv.exists_added haddr
    exact .inr (.inl ⟨h, List.mem_append_right _ hh, matches_of_added hname hr⟩)
  rcases mem_or_skips hr halive with hmem | hmem | ⟨h, hh, hmatch⟩ | ⟨addr, haddr, hname⟩
  · exact hnew hmem (.inl rfl)
  · exact hnew hmem (.inl rfl)
  · exact .inr (.inl ⟨h, List.mem_append_left _ hh, hmatch⟩)
  · exact hnew haddr (.inr hname)

/-- Where every alive address is skipped, nothing is added. -/
theorem addedAddresses_of_skips (hall : ∀ r ∈ results, r.alive = true → Skips py hosts [] r) :
    addedAddresses py hosts results = [] := by
  induction results using List.reverseRecOn with
  | nil => rfl
  | append_singleton results r ih =>
    have hprev := ih fun r' hr' => hall r' (List.mem_append_left _ hr')
    have hlast := hall r (List.mem_append_right _ (List.mem_singleton_self r))
    rw [addedAddresses_append_singleton, hprev, if_neg fun hnew => hnew.2 (hlast hnew.1)]

/-- **A second run adds nothing.** -/
theorem added_again (py : Python) (siteId : Option ℕ) (hosts : List PingHost)
    (results : List ScanResult) :
    (autoAddHosts py siteId (hosts ++ (autoAddHosts py siteId hosts results).added) results).added =
      [] := by
  have hinv := inv_autoAddHosts py siteId (hosts ++ (autoAddHosts py siteId hosts results).added)
    results
  have hnone : addedAddresses py (hosts ++ (autoAddHosts py siteId hosts results).added) results =
      [] := addedAddresses_of_skips fun r hr halive => skips_again hr halive
  have hnames := hinv.hostnames
  rw [hnone] at hnames
  exact List.map_eq_nil_iff.mp hnames

end Run

/-! ### When the scan adds the right hosts -/

section Right

variable {py} {siteId : Option ℕ} {hosts : List PingHost} {results : List ScanResult}
  {r : ScanResult} {added : List Ip} {h : PingHost}

theorem matches_iff : Matches py h r ↔ Direct py h r ∨ Misleads py h r := by
  unfold Matches Direct Misleads LooksUp IndexedAs
  grind

theorem knows_iff : Knows py h r ↔ Direct py h r ∨ Overlooked py h r := by
  have hstrip (hh : Text.strip h.hostname = py.ip r.address) :
      py.text.ipAddress (hostPart h) = some r.address := by
    rw [hostPart_of_strip hh]
    exact py.text.ipAddress_str r.address
  unfold Knows HasAddress BearsName Direct Overlooked
  grind

/-- The loop decides an address rightly exactly where the index tells. -/
theorem skips_iff_iff_clear : (Skips py hosts added r ↔
      r.address ∈ added ∨ ∃ h ∈ hosts, Knows py h r) ↔ Clear py hosts added r := by
  have hmatches : (∃ h ∈ hosts, Matches py h r) ↔
      (∃ h ∈ hosts, Direct py h r) ∨ ∃ h ∈ hosts, Misleads py h r := by
    simp only [matches_iff, and_or_left, exists_or]
  have hknows : (∃ h ∈ hosts, Knows py h r) ↔
      (∃ h ∈ hosts, Direct py h r) ∨ ∃ h ∈ hosts, Overlooked py h r := by
    simp only [knows_iff, and_or_left, exists_or]
  rw [Skips, hmatches, hknows, Clear]
  by_cases hadded : r.address ∈ added
  · simp [hadded]
  · by_cases hdirect : ∃ h ∈ hosts, Direct py h r
    · simp [hadded, hdirect]
    · simp [hadded, hdirect]

/-- Two loops agree after every part of a list exactly where their steps do. -/
theorem foldl_eq_iff {α β : Type} (f g : β → α → β) (b : β) (l : List α) :
    (∀ pre, pre <+: l → pre.foldl f b = pre.foldl g b) ↔
      ∀ pre a post, l = pre ++ a :: post → f (pre.foldl g b) a = g (pre.foldl g b) a := by
  constructor
  · rintro h pre a post rfl
    have hpre := h pre (List.prefix_append _ _)
    have hnext := h (pre ++ [a]) ⟨post, by simp⟩
    rw [List.foldl_append, List.foldl_append, hpre] at hnext
    exact hnext
  · intro h pre hpre
    induction pre using List.reverseRecOn with
    | nil => rfl
    | append_singleton pre a ih =>
      obtain ⟨post, hpost⟩ := hpre
      rw [List.foldl_append, List.foldl_append, ih ⟨a :: post, by rw [← hpost]; simp⟩]
      exact h pre a post (by rw [← hpost]; simp)

/-- Two steps that may add the same item agree exactly where their conditions do. -/
theorem ite_append_eq_iff {α : Type} {p q : Prop} [Decidable p] [Decidable q] (l : List α) (a : α) :
    (if p then l ++ [a] else l) = (if q then l ++ [a] else l) ↔ (p ↔ q) := by
  by_cases hp : p <;> by_cases hq : q <;> simp [hp, hq]

/-- The loop adds what is to be added, result by result, exactly where the index tells. -/
theorem adds_iff (py : Python) (siteId : Option ℕ) (hosts : List PingHost)
    (results : List ScanResult) : (∀ pre, pre <+: results →
      (autoAddHosts py siteId hosts pre).added.map PingHost.hostname =
        (newAddresses py hosts pre).map py.ip) ↔
    ∀ pre r post, results = pre ++ r :: post → r.alive = true →
      Clear py hosts (newAddresses py hosts pre) r := by
  classical
  simp only [(inv_autoAddHosts py siteId hosts _).hostnames, (ip_injective py).list_map.eq_iff]
  unfold addedAddresses newAddresses
  rw [foldl_eq_iff]
  refine forall_congr' fun pre => forall_congr' fun r => forall_congr' fun post =>
    imp_congr_right fun _ => ?_
  rw [← skips_iff_iff_clear]
  generalize pre.foldl _ _ = added
  rw [ite_append_eq_iff]
  grind

theorem nodup_newAddresses (py : Python) (hosts : List PingHost) (results : List ScanResult) :
    (newAddresses py hosts results).Nodup := by
  unfold newAddresses
  induction results using List.reverseRecOn with
  | nil => exact List.nodup_nil
  | append_singleton results r ih =>
    rw [List.foldl_append, List.foldl_cons, List.foldl_nil]
    split_ifs with hnew
    · exact List.Nodup.append ih (List.nodup_singleton _) (List.disjoint_singleton.mpr hnew.2.1)
    · exact ih

end Right

/-- **When the scan adds the right hosts**: exactly when the index tells for every alive address. -/
theorem scansRight_iff (siteId : Option ℕ) (hosts : List PingHost) (results : List ScanResult) :
    ScansRight py siteId hosts results ↔
      ∀ pre r post, results = pre ++ r :: post → r.alive = true →
        Clear py hosts (newAddresses py hosts pre) r := by
  rw [← adds_iff py siteId]
  refine ⟨ScansRight.adds, fun hadds => ⟨hadds, ?_, added_again py siteId hosts results⟩⟩
  rw [hadds results List.prefix_rfl]
  exact List.Nodup.map (ip_injective py) (nodup_newAddresses py hosts results)

/-! ### A host that is overlooked -/

/-- Dotted quads and groups of four hexadecimal digits. -/
def AddressText.full : AddressText where
  toIpText := .full
  mem_chars addr c hc := by
    by_contra hnot
    have hne {a : Char} (ha : a ∈ addressChars) : c ≠ a := fun heq => hnot (heq ▸ ha)
    have hdigit : ∀ d < 16, Nat.digitChar d ∈ addressChars := by decide
    have hnotDigit : ∀ d < 16, Nat.digitChar d ≠ c := fun d hd => (hne (hdigit d hd)).symm
    cases addr with
    | v4 n | v6 n =>
      exact NetSafety.notMem_groupsText (by decide) (by decide) (hne (by decide)) hnotDigit hc
  dot_v4 n := by
    have hcount := NetSafety.le_count_groupsText 256 10 '.' 4 n.toNat
    have hpos : 0 < (NetSafety.groupsText 256 10 '.' 4 n.toNat).toList.count '.' := by omega
    exact List.count_pos_iff.mp hpos
  colon_v4 n := NetSafety.notMem_groupsText (by decide) (by decide) (by decide) (by decide)
  colons_v6 n := by
    have hcount := NetSafety.le_count_groupsText 65536 16 ':' 8 n.toNat
    change 2 ≤ (NetSafety.groupsText 65536 16 ':' 8 n.toNat).toList.count ':'
    omega

/-- Full texts, and lower case of ASCII letters. -/
def fullPython : Python := ⟨.full, .asciiOnly⟩

/-- A host with one address as its name and hostname, and another one as its IP address. -/
def twoAddressHost : PingHost where
  name := fullPython.ip (.v4 1)
  hostname := fullPython.ip (.v4 1)
  ipAddress := some (fullPython.ip (.v4 2))
  checkType := "icmp"
  enabled := true
  source := "manual"
  sourceDetail := none
  siteId := none

/-- The other address answers. -/
def secondAddress : ScanResult where
  address := .v4 2
  alive := true
  dnsName := none
  chars_dnsName := by simp

/-- The host is **added once more**, under its second address. -/
theorem not_scansRight : ¬ScansRight fullPython none [twoAddressHost] [secondAddress] := by
  intro hright
  have hclear := (adds_iff fullPython none _ _).mp hright.adds [] secondAddress [] rfl rfl
  have hne : fullPython.ip (.v4 1) ≠ fullPython.ip (.v4 2) :=
    (ip_injective fullPython).ne (by decide)
  have hstrip : Text.strip twoAddressHost.hostname = fullPython.ip (.v4 1) := strip_ip (.v4 1)
  have hkey : hostKey fullPython twoAddressHost = some (fullPython.ip (.v4 1)) :=
    hostKey_of_v4 hstrip
  have hname : nameKey fullPython twoAddressHost = some (fullPython.ip (.v4 1)) := by
    rw [nameKey, twoAddressHost, strip_ip, key_ip]
  have hdirect : ¬Direct fullPython twoAddressHost secondAddress := by
    rintro (heq | ⟨heq, -⟩ | ⟨dns, hdns, -⟩)
    · exact hne (hstrip.symm.trans heq)
    · exact hne (Option.some.inj (hkey.symm.trans heq))
    · cases hdns
  have hmisleads : ¬Misleads fullPython twoAddressHost secondAddress := by
    rintro (heq | ⟨heq, -⟩ | ⟨dns, hdns, -⟩)
    · exact hne (Option.some.inj (hname.symm.trans heq))
    · exact hne (Option.some.inj (hkey.symm.trans heq))
    · cases hdns
  have hoverlooked : Overlooked fullPython twoAddressHost secondAddress :=
    .inl ⟨_, rfl, by rw [strip_ip]; exact fullPython.text.ipAddress_str _⟩
  simp [Clear, newAddresses, NamesAdded, hdirect, hmisleads, hoverlooked] at hclear

end Nodeglow.SubnetScanner
