import Nodeglow.Foundation.Text

/-!
# Addresses and names that must not be reached

Outbound connections go to devices on private networks, so private addresses are allowed. Blocked
are the addresses that no device has: loopback, link-local, unspecified, multicast, and the metadata
endpoints of clouds; and the names of the metadata endpoints and of the installation's own services.
An IPv6 address that maps an IPv4 address is judged as the latter.

The text form of addresses is given (`IpText`); the zone of a text form is cut off before it is
read.

## Main results

* `blockedIpReason_mapped`, `parseIp_zone` — mapped addresses and zones.
* `isSome_blockedNameReason` — a blocked name is blocked in every spelling.

Source: `backend/utils/net_safety.py`, lines 34–110.
-/

namespace Nodeglow.NetSafety

/-! ### Addresses -/

/-- An address, without a zone. -/
inductive Ip
  | v4 (n : BitVec 32)
  | v6 (n : BitVec 128)
  deriving DecidableEq, Repr

namespace Ip

/-- `ipv4_mapped`: the last 32 bits of an address in `::ffff:0:0/96`. -/
def ipv4Mapped : Ip → Option Ip
  | v4 _ => none
  | v6 n => if n >>> 32 = 0xFFFF then some (v4 (n.setWidth 32)) else none

/-- `is_loopback`: `127.0.0.0/8` and `::1`. -/
def isLoopback : Ip → Bool
  | v4 n => n >>> 24 = 127
  | v6 n => n = 1

/-- `is_unspecified`. -/
def isUnspecified : Ip → Bool
  | v4 n => n = 0
  | v6 n => n = 0

/-- Whether the address is one of version 4 in `_ZERO_NET`. -/
def inZeroNet : Ip → Bool
  | v4 n => n >>> 24 = 0
  | v6 _ => false

/-- `is_link_local`: `169.254.0.0/16` and `fe80::/10`. -/
def isLinkLocal : Ip → Bool
  | v4 n => n >>> 16 = 0xA9FE
  | v6 n => n >>> 118 = 0x3FA

/-- `is_multicast`: `224.0.0.0/4` and `ff00::/8`. -/
def isMulticast : Ip → Bool
  | v4 n => n >>> 28 = 0xE
  | v6 n => n >>> 120 = 0xFF

end Ip

/-- `METADATA_IPS`: 169.254.169.254, 168.63.129.16, 100.100.100.200 and fd00:ec2::254. -/
def metadataIps : List Ip :=
  [.v4 0xA9FEA9FE, .v4 0xA83F8110, .v4 0x646464C8, .v6 0xFD000EC2000000000000000000000254]

/-- `blocked_ip_reason`. -/
def blockedIpReason (addr : Ip) : Option String :=
  let addr := addr.ipv4Mapped.getD addr
  if addr ∈ metadataIps then some "Cloud metadata endpoints are not allowed"
  else if addr.isLoopback then some "Loopback addresses are not allowed"
  else if addr.isUnspecified || addr.inZeroNet then
    some "Unspecified addresses (0.0.0.0) are not allowed"
  else if addr.isLinkLocal then
    some "Link-local addresses are not allowed (cloud metadata risk)"
  else if addr.isMulticast then some "Multicast addresses are not allowed"
  else none

/-- The IPv6 address `::ffff:0:0` with an IPv4 address in its last 32 bits. -/
def Ip.mapped (n : BitVec 32) : Ip := .v6 (0xFFFF00000000 + n.setWidth 128)

theorem ipv4Mapped_mapped (n : BitVec 32) : (Ip.mapped n).ipv4Mapped = some (.v4 n) := by
  have hn := n.isLt
  have htoNat : (0xFFFF00000000 + n.setWidth 128 : BitVec 128).toNat =
      0xFFFF00000000 + n.toNat := by
    have hconst : (0xFFFF00000000 : BitVec 128).toNat = 0xFFFF00000000 := rfl
    rw [BitVec.toNat_add, BitVec.toNat_setWidth, hconst]
    omega
  have hhigh : (0xFFFF00000000 + n.setWidth 128 : BitVec 128) >>> 32 = 0xFFFF := by
    apply BitVec.eq_of_toNat_eq
    have hconst : (0xFFFF : BitVec 128).toNat = 0xFFFF := rfl
    rw [BitVec.toNat_ushiftRight, htoNat, Nat.shiftRight_eq_div_pow, hconst]
    omega
  have hlow : (0xFFFF00000000 + n.setWidth 128 : BitVec 128).setWidth 32 = n := by
    apply BitVec.eq_of_toNat_eq
    rw [BitVec.toNat_setWidth, htoNat]
    omega
  rw [Ip.mapped, Ip.ipv4Mapped, if_pos hhigh, hlow]

/-- **Mapped addresses** are judged as the IPv4 address. -/
theorem blockedIpReason_mapped (n : BitVec 32) :
    blockedIpReason (.mapped n) = blockedIpReason (.v4 n) := by
  rw [blockedIpReason, blockedIpReason, ipv4Mapped_mapped]
  rfl

/-! ### Text forms of addresses -/

/-- The text form of addresses: `str` and `ipaddress.ip_address` of a text without a zone. -/
structure IpText where
  str : Ip → String
  ipAddress : String → Option Ip
  ipAddress_str : ∀ addr, ipAddress (str addr) = some addr
  zone_str : ∀ addr, '%' ∉ (str addr).toList

/-- `_parse_ip`. -/
def parseIp (ip : IpText) (value : String) : Option Ip :=
  ip.ipAddress (String.ofList (value.toList.takeWhile (· ≠ '%')))

/-- The text form of an address is a literal. -/
theorem parseIp_str (ip : IpText) (addr : Ip) : parseIp ip (ip.str addr) = some addr := by
  have hzone : (ip.str addr).toList.takeWhile (· ≠ '%') = (ip.str addr).toList := by
    rw [List.takeWhile_eq_self_iff]
    exact fun c hc => decide_eq_true fun h => ip.zone_str addr (h ▸ hc)
  rw [parseIp, hzone, String.ofList_toList, ip.ipAddress_str]

/-- **Zones** are cut off. -/
theorem parseIp_zone (ip : IpText) (addr : Ip) (zone : String) :
    parseIp ip (ip.str addr ++ "%" ++ zone) = some addr := by
  have hlist : (ip.str addr ++ "%" ++ zone).toList =
      (ip.str addr).toList ++ '%' :: zone.toList := by
    simp
  rw [parseIp, hlist, Text.takeWhile_append_cons (ip.zone_str addr), String.ofList_toList,
    ip.ipAddress_str]

/-! ### Full text forms

The groups of digits of an address, without any abbreviation: a text form of each address. -/

section Groups

variable {base digits k n g : ℕ} {sep c : Char}

/-- The lowest `k` digits of a number in a base, the highest first. -/
def groups (base : ℕ) : ℕ → ℕ → List ℕ
  | 0, _ => []
  | k + 1, n => groups base k (n / base) ++ [n % base]

/-- The groups in a number system, with separators. -/
def groupsText (base digits : ℕ) (sep : Char) (k n : ℕ) : String :=
  String.ofList ([sep].intercalate ((groups base k n).map (Nat.toDigits digits)))

/-- The number that `k` groups with separators denote. -/
def groupsValue (base digits : ℕ) (sep : Char) (k : ℕ) (s : String) : Option ℕ :=
  let found := (s.toList.splitOn sep).mapM fun text =>
    (List.range base).find? fun g => Nat.toDigits digits g = text
  (found.filter fun gs => gs.length = k).map fun gs => gs.foldl (fun m g => base * m + g) 0

theorem length_groups : (groups base k n).length = k := by
  induction k generalizing n with
  | zero => rfl
  | succ k ih => simp [groups, ih]

theorem lt_of_mem_groups (hbase : 0 < base) (hg : g ∈ groups base k n) : g < base := by
  induction k generalizing n with
  | zero => simp [groups] at hg
  | succ k ih =>
    rcases List.mem_append.mp hg with hg | hg
    · exact ih hg
    · rw [List.mem_singleton.mp hg]
      exact Nat.mod_lt _ hbase

theorem foldl_groups (hn : n < base ^ k) :
    (groups base k n).foldl (fun m g => base * m + g) 0 = n := by
  induction k generalizing n with
  | zero => simpa [groups, eq_comm] using hn
  | succ k ih =>
    have hdiv : n / base < base ^ k := Nat.div_lt_of_lt_mul (by rwa [Nat.pow_succ'] at hn)
    rw [groups, List.foldl_append, ih hdiv]
    exact Nat.div_add_mod n base

/-- The digits of a number system up to the hexadecimal one. -/
theorem exists_digitChar (hdigits : 1 < digits) (hc : c ∈ Nat.toDigits digits n) :
    ∃ d < digits, c = Nat.digitChar d := by
  induction n using Nat.strong_induction_on with
  | _ n ih =>
    rw [Nat.toDigits_eq_if hdigits] at hc
    split_ifs at hc with hn
    · exact ⟨n, hn, List.mem_singleton.mp hc⟩
    · rcases List.mem_append.mp hc with hc | hc
      · exact ih _ (Nat.div_lt_self (by omega) hdigits) hc
      · exact ⟨n % digits, Nat.mod_lt _ (by omega), List.mem_singleton.mp hc⟩

theorem digitChar_inj : ∀ d < 16, ∀ d' < 16, Nat.digitChar d = Nat.digitChar d' → d = d' := by
  decide

theorem toDigits_inj (hdigits : 1 < digits) (hle : digits ≤ 16) {m : ℕ}
    (h : Nat.toDigits digits m = Nat.toDigits digits n) : m = n := by
  have hmod {m n : ℕ} (h : (m % digits).digitChar = (n % digits).digitChar) :
      m % digits = n % digits := by
    have hm := Nat.mod_lt m (show 0 < digits by omega)
    have hn := Nat.mod_lt n (show 0 < digits by omega)
    exact digitChar_inj _ (by omega) _ (by omega) h
  -- Both numbers have the same last digit, and the same number before it.
  have hlast (n : ℕ) : (Nat.toDigits digits n).getLast? = some (n % digits).digitChar := by
    rw [Nat.toDigits_eq_if hdigits]
    split_ifs with hlt
    · rw [Nat.mod_eq_of_lt hlt]
      rfl
    · simp
  have hlength (n : ℕ) : (Nat.toDigits digits n).length = 1 ↔ n < digits := by
    rw [Nat.toDigits_eq_if hdigits]
    split_ifs with hlt
    · simpa using hlt
    · have hpos := Nat.length_toDigits_pos (b := digits) (n := n / digits)
      simp only [List.length_append, List.length_singleton, hlt, iff_false]
      omega
  have hlow : m % digits = n % digits :=
    hmod (Option.some.inj ((hlast m).symm.trans ((congrArg List.getLast? h).trans (hlast n))))
  induction m using Nat.strong_induction_on generalizing n with
  | _ m ih =>
    have hlt : m < digits ↔ n < digits := by rw [← hlength, ← hlength, h]
    by_cases hm : m < digits
    · rwa [Nat.mod_eq_of_lt hm, Nat.mod_eq_of_lt (hlt.mp hm)] at hlow
    · have hn : ¬n < digits := mt hlt.mpr hm
      rw [Nat.toDigits_eq_if hdigits, if_neg hm, Nat.toDigits_eq_if hdigits (n := n),
        if_neg hn] at h
      have hdiv : m / digits = n / digits := by
        have hfront := (List.append_inj' h rfl).1
        refine ih _ (Nat.div_lt_self (by omega) hdigits) hfront ?_
        exact hmod (Option.some.inj
          ((hlast _).symm.trans ((congrArg List.getLast? hfront).trans (hlast _))))
      rw [← Nat.div_add_mod m digits, ← Nat.div_add_mod n digits, hdiv, hlow]

theorem find?_toDigits (hdigits : 1 < digits) (hle : digits ≤ 16) (hg : g < base) :
    ((List.range base).find? fun g' => Nat.toDigits digits g' = Nat.toDigits digits g) =
      some g := by
  cases hfound : (List.range base).find? fun g' =>
      Nat.toDigits digits g' = Nat.toDigits digits g with
  | none => simpa using List.find?_eq_none.mp hfound g (List.mem_range.mpr hg)
  | some g' =>
    have heq : Nat.toDigits digits g' = Nat.toDigits digits g := by
      simpa using List.find?_some hfound
    rw [toDigits_inj hdigits hle heq]

/-- No separator is a digit. -/
theorem notMem_toDigits (hdigits : 1 < digits) (hle : digits ≤ 16)
    (hsep : ∀ d < 16, Nat.digitChar d ≠ sep) : sep ∉ Nat.toDigits digits n := by
  intro hmem
  obtain ⟨d, hd, hc⟩ := exists_digitChar hdigits hmem
  exact hsep d (by omega) hc.symm

theorem groupsValue_groupsText (hdigits : 1 < digits) (hle : digits ≤ 16) (hbase : 0 < base)
    (hk : k ≠ 0) (hsep : ∀ d < 16, Nat.digitChar d ≠ sep) (hn : n < base ^ k) :
    groupsValue base digits sep k (groupsText base digits sep k n) = some n := by
  have hne : groups base k n ≠ [] := by
    rw [← List.length_pos_iff, length_groups]
    omega
  have hsplit : (groupsText base digits sep k n).toList.splitOn sep =
      (groups base k n).map (Nat.toDigits digits) := by
    rw [groupsText, String.toList_ofList, List.splitOn_intercalate _ _ (by simpa using hne)]
    intro text htext
    obtain ⟨g, -, rfl⟩ := List.mem_map.mp htext
    exact notMem_toDigits hdigits hle hsep
  have hmap (gs : List ℕ) (hgs : ∀ g ∈ gs, g < base) :
      (gs.map (Nat.toDigits digits)).mapM (fun text =>
        (List.range base).find? fun g => Nat.toDigits digits g = text) = some gs := by
    induction gs with
    | nil => rfl
    | cons g gs ih =>
      obtain ⟨hg, hgs⟩ := List.forall_mem_cons.mp hgs
      rw [List.map_cons, List.mapM_cons, find?_toDigits hdigits hle hg, ih hgs]
      rfl
  rw [groupsValue, hsplit, hmap _ fun g hg => lt_of_mem_groups hbase hg]
  simp [length_groups, foldl_groups hn]

/-- What is neither a digit nor the separator does not occur. -/
theorem notMem_groupsText (hdigits : 1 < digits) (hle : digits ≤ 16) (hne : c ≠ sep)
    (hc : ∀ d < 16, Nat.digitChar d ≠ c) : c ∉ (groupsText base digits sep k n).toList := by
  rw [groupsText, String.toList_ofList]
  induction groups base k n with
  | nil => simp
  | cons g gs ih =>
    cases gs with
    | nil => simpa using notMem_toDigits hdigits hle hc
    | cons g' gs =>
      rw [List.map_cons, List.map_cons, List.intercalate_cons_cons, List.mem_append,
        List.mem_append, List.mem_singleton, ← List.map_cons]
      exact not_or.mpr ⟨not_or.mpr ⟨notMem_toDigits hdigits hle hc, hne⟩, ih⟩

/-- A separator stands between any two groups. -/
theorem le_count_groupsText (base digits : ℕ) (sep : Char) (k n : ℕ) :
    k ≤ (groupsText base digits sep k n).toList.count sep + 1 := by
  have hcount (gs : List ℕ) :
      gs.length ≤ ([sep].intercalate (gs.map (Nat.toDigits digits))).count sep + 1 := by
    induction gs with
    | nil => simp
    | cons g gs ih =>
      cases gs with
      | nil => simp
      | cons g' gs =>
        rw [List.map_cons, List.map_cons, List.intercalate_cons_cons, ← List.map_cons,
          List.count_append, List.count_append, List.count_singleton_self]
        rw [List.length_cons]
        omega
  have hk := hcount (groups base k n)
  rw [length_groups] at hk
  rwa [groupsText, String.toList_ofList]

/-- Without the separator there is one group only. -/
theorem groupsValue_eq_none {s : String} (hs : sep ∉ s.toList) (hk : k ≠ 1) :
    groupsValue base digits sep k s = none := by
  rw [groupsValue, List.splitOn_eq_singleton hs, List.mapM_cons]
  generalize (List.range base).find? _ = found
  cases found with
  | none => rfl
  | some g => simp [hk.symm]

end Groups

/-- Dotted quads and groups of four hexadecimal digits. -/
def IpText.full : IpText where
  str
    | .v4 n => groupsText 256 10 '.' 4 n.toNat
    | .v6 n => groupsText 65536 16 ':' 8 n.toNat
  ipAddress s :=
    ((groupsValue 256 10 '.' 4 s).map fun n => .v4 (.ofNat 32 n)).or
      ((groupsValue 65536 16 ':' 8 s).map fun n => .v6 (.ofNat 128 n))
  ipAddress_str := by
    have hv4 (n : BitVec 32) : groupsValue 256 10 '.' 4 (groupsText 256 10 '.' 4 n.toNat) =
        some n.toNat :=
      groupsValue_groupsText (by decide) (by decide) (by decide) (by decide) (by decide) n.isLt
    have hv6 (n : BitVec 128) : groupsValue 65536 16 ':' 8 (groupsText 65536 16 ':' 8 n.toNat) =
        some n.toNat :=
      groupsValue_groupsText (by decide) (by decide) (by decide) (by decide) (by decide) n.isLt
    have hnone (n : BitVec 128) : groupsValue 256 10 '.' 4 (groupsText 65536 16 ':' 8 n.toNat) =
        none :=
      groupsValue_eq_none
        (notMem_groupsText (by decide) (by decide) (by decide) (by decide)) (by decide)
    rintro (n | n)
    · simp [hv4]
    · simp [hnone, hv6]
  zone_str := by
    rintro (n | n) <;>
      exact notMem_groupsText (by decide) (by decide) (by decide) (by decide)

/-! ### Names -/

/-- `METADATA_HOSTS`. -/
def metadataHosts : List String :=
  ["metadata.google.internal", "metadata", "instance-data", "metadata.internal",
    "kubernetes.default.svc", "kubernetes.default"]

/-- `INTERNAL_HOSTS`. -/
def internalHosts : List String :=
  ["localhost", "localhost.localdomain", "ip6-localhost", "ip6-loopback", "db", "postgres",
    "clickhouse", "nodeglow-ch", "updater", "nodeglow-updater", "nodeglow", "frontend",
    "nodeglow-frontend"]

/-- `blocked_name_reason`. -/
def blockedNameReason (py : Text.Lower) (host : String) : Option String :=
  let host := py.lower (Text.dropMatchesRight (· = '.') (Text.strip host))
  if host ∈ internalHosts then some "Internal service names are not allowed"
  else if host ∈ metadataHosts then some "Cloud metadata endpoints are not allowed"
  else none

/-- The host spells the name: in any letter case, with dots at its end, in brackets. -/
def Spells (host name : String) : Prop :=
  ∃ spelled dots, Text.asciiLower spelled = name ∧ (∀ c ∈ dots.toList, c = '.') ∧
    (host = spelled ++ dots ∨ host = "[" ++ (spelled ++ dots) ++ "]")

section Spelled

variable {spelled name dots : String} {c : Char}

/-- Brackets, which `strip("[]")` trims. -/
def isBracket (c : Char) : Bool := c = '[' || c = ']'

/-- A character of a blocked name, in whatever case. -/
def isPlain (c : Char) : Bool := c.toNat < 128 && !Text.isSpace c && !isBracket c

theorem isPlain_iff :
    isPlain c = true ↔ c.toNat < 128 ∧ Text.isSpace c = false ∧ isBracket c = false := by
  simp [isPlain, and_assoc]

theorem all_isPlain (hname : name ∈ internalHosts ++ metadataHosts) : name.toList.all isPlain := by
  revert name
  decide

theorem getLast_ne_dot (hname : name ∈ internalHosts ++ metadataHosts) :
    name.toList.getLast? ≠ some '.' := by
  revert name
  decide

theorem isPlain_of_toLower (h : isPlain c.toLower = true) : isPlain c = true := by
  rw [isPlain_iff, Text.isSpace_toLower] at h
  obtain ⟨hascii, hspace, hbracket⟩ := h
  refine isPlain_iff.mpr ⟨?_, hspace, ?_⟩
  · rw [Text.toNat_toLower] at hascii
    split_ifs at hascii <;> omega
  · by_contra hne
    have hc : c = '[' ∨ c = ']' := by simpa [isBracket] using eq_true_of_ne_false hne
    rcases hc with rfl | rfl <;> exact absurd hbracket (by decide)

variable (hname : name ∈ internalHosts ++ metadataHosts) (hspelled : Text.asciiLower spelled = name)
include hname hspelled

theorem isPlain_of_mem (hc : c ∈ spelled.toList) : isPlain c = true := by
  apply isPlain_of_toLower
  apply List.all_eq_true.mp (all_isPlain hname)
  rw [← hspelled, Text.asciiLower, String.toList_ofList]
  exact List.mem_map_of_mem hc

theorem isPlain_of_mem_append (hdots : ∀ c ∈ dots.toList, c = '.')
    (hc : c ∈ (spelled ++ dots).toList) : isPlain c = true := by
  rw [String.toList_append, List.mem_append] at hc
  rcases hc with hc | hc
  · exact isPlain_of_mem hname hspelled hc
  · rw [hdots c hc]
    rfl

/-- The dots at the end are cut off. -/
theorem dropMatchesRight_append (hdots : ∀ c ∈ dots.toList, c = '.') :
    Text.dropMatchesRight (· = '.') (spelled ++ dots) = spelled := by
  have hlast : spelled.toList.getLast? ≠ some '.' := by
    intro hdot
    apply getLast_ne_dot hname
    rw [← hspelled, Text.asciiLower, String.toList_ofList, List.getLast?_map, hdot]
    rfl
  rw [Text.dropMatchesRight, String.toList_append,
    Text.rdropWhile_append_of_pos (by simpa using hdots), List.rdropWhile_eq_self_iff.mpr,
    String.ofList_toList]
  intro hne hdot
  exact hlast (by rw [List.getLast?_eq_some_getLast hne, of_decide_eq_true hdot])

/-- **A blocked name** is blocked in any letter case and with dots at its end. -/
theorem isSome_blockedNameReason (py : Text.Lower) (hdots : ∀ c ∈ dots.toList, c = '.') :
    (blockedNameReason py (spelled ++ dots)).isSome := by
  have hspace (c : Char) (hc : c ∈ (spelled ++ dots).toList) : Text.isSpace c = false :=
    (isPlain_iff.mp (isPlain_of_mem_append hname hspelled hdots hc)).2.1
  have hlower : py.lower spelled = name := by
    rw [py.lower_ascii, hspelled]
    exact fun c hc => (isPlain_iff.mp (isPlain_of_mem hname hspelled hc)).1
  rw [blockedNameReason, Text.strip_of_forall hspace, dropMatchesRight_append hname hspelled hdots,
    hlower]
  split_ifs with hinternal hmetadata
  · rfl
  · rfl
  · exact absurd (List.mem_append.mp hname) (not_or.mpr ⟨hinternal, hmetadata⟩)

/-- Brackets around it are trimmed. -/
theorem strip_brackets (hdots : ∀ c ∈ dots.toList, c = '.') {host : String}
    (hhost : host = spelled ++ dots ∨ host = "[" ++ (spelled ++ dots) ++ "]") :
    Text.trimMatches isBracket (Text.strip host) = spelled ++ dots := by
  have hplain (c : Char) (hc : c ∈ (spelled ++ dots).toList) :=
    isPlain_iff.mp (isPlain_of_mem_append hname hspelled hdots hc)
  have hstrip : Text.strip host = host := by
    refine Text.strip_of_forall fun c hc => ?_
    rcases hhost with rfl | rfl
    · exact (hplain c hc).2.1
    · rw [String.toList_append, String.toList_append, List.mem_append, List.mem_append] at hc
      rcases hc with (hc | hc) | hc
      · rw [List.mem_singleton.mp hc]
        rfl
      · exact (hplain c hc).2.1
      · rw [List.mem_singleton.mp hc]
        rfl
  rw [hstrip]
  have htrim {before after : String} (hbefore : ∀ c ∈ before.toList, isBracket c = true)
      (hafter : ∀ c ∈ after.toList, isBracket c = true) :=
    Text.trimMatches_append hbefore (fun c hc => (hplain c hc).2.2) hafter
  rcases hhost with rfl | rfl
  · have h : Text.trimMatches isBracket ("" ++ (spelled ++ dots ++ "")) = spelled ++ dots :=
      htrim (by simp) (by simp)
    rwa [String.append_empty, String.empty_append] at h
  · rw [String.append_assoc]
    exact htrim (by simp [isBracket]) (by simp [isBracket])

end Spelled

end Nodeglow.NetSafety
