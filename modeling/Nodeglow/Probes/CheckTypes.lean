import Mathlib.Algebra.Order.Field.Rat
import Nodeglow.Foundation.Text

/-!
# The check types of a host

A host is checked in several ways, named by a list with commas: by the core, or by the probe that
the host is assigned to. Each splits the list, runs a check for every entry, and folds the outcomes
into one: whether the host is up, the latency, and the outcome of every entry under its label.

The outcomes of the checks are given. They belong to the normalised check types: the probe
normalises the list and keeps the normalised entries, the core only what it runs. A `tcp` entry may
name a port that the core cannot read, and a `dns` entry a name with too long a label, and then the
core has no result. So they agree where the entries are normalised already and no check of the core
raises (`agrees_iff`).

## Main results

* `Server.checkHost_eq_some` — when the core has a result.
* `Agent.isSome_detail`, `Server.isSome_detail` — the labels of the details.

Source: `agent/src/checks.rs`, lines 280–319 and 653–706; `backend/utils/ping.py`, lines 259–326 and
372–461.
-/

namespace Nodeglow.Probes

/-- The entries of a list with commas. -/
def entries (raw : String) : List String := (raw.toList.splitOn ',').map String.ofList

/-- What a check of one type comes to; the probe does not report the reason. -/
structure Outcome where
  ok : Bool
  latency : Option ℚ
  reason : Option String
  deriving DecidableEq, Repr

/-- What is stored under labels. A later entry replaces an earlier one of the same label. -/
def byLabel {α : Type} (checks : List (String × α)) : String → Option α :=
  checks.foldl (fun stored check => Function.update stored check.1 (some check.2)) fun _ => none

/-! ### The probe -/

namespace Agent

/-- `SubResult`. -/
structure SubResult where
  label : String
  isIcmp : Bool
  ok : Bool
  latency : Option ℚ

/-- `CheckResult`, without the host and the time. -/
structure CheckResult where
  success : Bool
  latency : Option ℚ
  detail : String → Option Bool

/-- `parse_check_types`. -/
def parseCheckTypes (raw : String) : List String :=
  let types := ((entries raw).map fun t => Text.asciiLower (Text.trim t)).filter (· ≠ "")
  if types = [] then ["icmp"] else types

/-- `detail_label`. -/
def detailLabel (checkType : String) (port : Option ℕ) : String :=
  match port with
  | some p => if checkType = "tcp" then "tcp:" ++ toString p else checkType
  | none => checkType

/-- `summarize`. -/
def summarize (subs : List SubResult) : CheckResult where
  success :=
    if subs.any SubResult.isIcmp then (subs.filter SubResult.isIcmp).all SubResult.ok
    else subs.any SubResult.ok
  latency := ((subs.find? SubResult.isIcmp).bind SubResult.latency).or
    (subs.findSome? SubResult.latency)
  detail := byLabel (subs.map fun s => (s.label, s.ok))

/-- `run_one`, with the outcomes of the checks. -/
def runOne (raw : String) (port : Option ℕ) (outcome : String → Outcome) : CheckResult :=
  summarize ((parseCheckTypes raw).map fun ct =>
    { label := detailLabel ct port
      isIcmp := ct = "icmp"
      ok := (outcome ct).ok
      latency := (outcome ct).latency })

end Agent

/-! ### The core -/

namespace Server

/-- `HostCheck`. -/
structure HostCheck where
  online : Bool
  portError : Bool
  latency : Option ℚ
  detail : String → Option Bool
  errors : String → Option String

/-- The list of `check_host`. -/
def checkTypes (raw : String) : List String :=
  ((entries (if raw = "" then "icmp" else raw)).map Text.strip).filter (· ≠ "")

/-- The label of a check: `tcp` is given the port of the host, unless it is missing or zero. -/
def label (ct : String) (port : Option ℕ) : String :=
  match port with
  | some p => if ct = "tcp" ∧ p ≠ 0 ∧ ':' ∉ ct.toList then "tcp:" ++ toString p else ct
  | none => ct

/-- What the core takes from libraries. -/
structure Library where
  /-- The ports at which asyncio does not try a connection, but raises `OverflowError`. -/
  refused : ℤ → Bool
  /-- The labels of a name that the codec `idna` encodes. -/
  encodes : String → Bool

/-- The port of a `tcp` check: the number after the first colon of the type, or the port of the
host. Where the text is no number, `int` raises `ValueError`. -/
def tcpPort (ct : String) (port : Option ℕ) : Option ℤ :=
  match ct.toList.splitOn ':' with
  | _ :: text :: _ => Text.parseInt (String.ofList text)
  | _ => some ((port.filter (· ≠ 0)).getD 80 : ℕ)

/-- `build_dns_query` raises `ValueError` at a label whose length is no byte. What the codec raises
at an earlier one is caught by `check_dns`. -/
def queryRaises (lib : Library) (name : String) : Bool :=
  (((Text.split '.' name).filter (· ≠ "")).find? fun l => 256 ≤ l.length || !lib.encodes l).any
    fun l => 256 ≤ l.length

/-- The check has no outcome: what it raises is not caught. -/
def raises (lib : Library) (ct : String) (port : Option ℕ) : Bool :=
  if ct = "tcp" || "tcp:".toList.isPrefixOf ct.toList then
    (tcpPort ct port).elim true lib.refused
  else "dns:".toList.isPrefixOf ct.toList && queryRaises lib (String.ofList (ct.toList.drop 4))

/-- `_check_single`, with the outcomes of the checks, of which one may raise. -/
def checkSingle (py : Text.Lower) (lib : Library) (port : Option ℕ)
    (outcome : String → Outcome) (ct : String) : Option Outcome :=
  if raises lib (py.lower ct) port then none else some (outcome (py.lower ct))

/-- The end of `check_host`. -/
def hostCheck (port : Option ℕ) (results : List (String × Outcome)) : HostCheck :=
  let icmp := results.filter fun r => r.1 = "icmp"
  let service := results.filter fun r => r.1 ≠ "icmp"
  let online := if icmp ≠ [] then icmp.all fun r => r.2.ok else results.any fun r => r.2.ok
  { online := online
    portError := online && service.any fun r => !r.2.ok
    latency := (icmp.head?.bind fun r => r.2.latency).or (results.findSome? fun r => r.2.latency)
    detail := byLabel (results.map fun r => (label r.1 port, r.2.ok))
    errors := byLabel (results.filterMap fun r =>
      if r.2.ok then none
      else (r.2.reason.filter (· ≠ "")).map fun reason => (label r.1 port, reason)) }

/-- `check_host`. It gathers the checks, and raises when one of them does. -/
def checkHost (py : Text.Lower) (lib : Library) (raw : String) (port : Option ℕ)
    (outcome : String → Outcome) : Option HostCheck :=
  ((checkTypes raw).mapM fun ct =>
    (checkSingle py lib port outcome ct).map (ct, ·)).map (hostCheck port)

/-- The results of the checks when none raises. -/
def results (py : Text.Lower) (raw : String) (outcome : String → Outcome) :
    List (String × Outcome) :=
  (checkTypes raw).map fun ct => (ct, outcome (py.lower ct))

end Server

/-! ### Agreement -/

/-- The core has a result for a host, and the probe says the same. -/
def Agrees (py : Text.Lower) (lib : Server.Library) (raw : String) (port : Option ℕ)
    (outcome : String → Outcome) : Prop :=
  ∃ c, Server.checkHost py lib raw port outcome = some c ∧
    (Agent.runOne raw port outcome).success = c.online ∧
    (Agent.runOne raw port outcome).latency = c.latency ∧
    (Agent.runOne raw port outcome).detail = c.detail

/-- A list that is empty or has an entry, whose entries are in lower case and have no white space
around them that only one of the two sides trims; no `tcp` entry with the port zero; and no entry
whose check raises. -/
structure Normalised (py : Text.Lower) (lib : Server.Library) (raw : String) (port : Option ℕ) :
    Prop where
  nonempty : raw = "" ∨ ∃ t ∈ entries raw, Text.strip t ≠ ""
  trimmed : ∀ t ∈ entries raw, Text.trim t = Text.strip t
  lower : ∀ t ∈ entries raw, py.lower (Text.strip t) = Text.strip t
  answers : ∀ t ∈ entries raw, Server.raises lib (Text.strip t) port = false
  port : (∃ t ∈ entries raw, Text.strip t = "tcp") → port ≠ some 0

/-! ### What is stored under labels -/

section ByLabel

variable {α : Type} {checks : List (String × α)} {k : String} {v : α}

theorem byLabel_concat (checks : List (String × α)) (check : String × α) :
    byLabel (checks ++ [check]) = Function.update (byLabel checks) check.1 (some check.2) := by
  simp [byLabel, List.foldl_append]

theorem isSome_byLabel : (byLabel checks k).isSome ↔ k ∈ checks.map Prod.fst := by
  induction checks using List.reverseRecOn with
  | nil => simp [byLabel]
  | append_singleton checks check ih =>
    rw [byLabel_concat, Function.update_apply, List.map_append, List.mem_append]
    split_ifs with hk
    · simp [hk]
    · simp [ih, hk]

/-- Where all entries of a label say the same, this is stored. -/
theorem byLabel_eq_some (hk : k ∈ checks.map Prod.fst) (hv : ∀ c ∈ checks, c.1 = k → c.2 = v) :
    byLabel checks k = some v := by
  induction checks using List.reverseRecOn with
  | nil => simp at hk
  | append_singleton checks check ih =>
    rw [byLabel_concat, Function.update_apply]
    split_ifs with heq
    · rw [hv check (by simp) heq.symm]
    · refine ih ?_ fun c hc => hv c (List.mem_append_left _ hc)
      simpa [heq] using hk

end ByLabel

variable {py : Text.Lower} {lib : Server.Library} {raw : String} {port : Option ℕ}
  {outcome : String → Outcome} {ct k : String}

/-! ### Checks that raise -/

theorem Server.mapM_checkSingle (types : List String) :
    (types.mapM fun ct => (Server.checkSingle py lib port outcome ct).map (ct, ·)) =
      if types.all fun ct => !Server.raises lib (py.lower ct) port then
        some (types.map fun ct => (ct, outcome (py.lower ct)))
      else none := by
  induction types with
  | nil => rfl
  | cons ct types ih =>
    rw [List.mapM_cons, ih, Server.checkSingle, List.all_cons]
    cases Server.raises lib (py.lower ct) port with
    | true => rfl
    | false =>
      cases types.all fun ct => !Server.raises lib (py.lower ct) port with
      | true => rfl
      | false => rfl

/-- The core has a result where no check raises. -/
theorem Server.checkHost_eq_some {c : Server.HostCheck} :
    Server.checkHost py lib raw port outcome = some c ↔
      (∀ ct ∈ Server.checkTypes raw, Server.raises lib (py.lower ct) port = false) ∧
        Server.hostCheck port (Server.results py raw outcome) = c := by
  rw [Server.checkHost, Server.mapM_checkSingle]
  split_ifs with hall
  · simpa [Server.results] using fun _ => by simpa using hall
  · simpa using fun h => absurd h (by simpa using hall)

/-! ### The labels -/

/-- The labels of the probe. -/
theorem Agent.isSome_detail : ((Agent.runOne raw port outcome).detail k).isSome ↔
    ∃ ct ∈ Agent.parseCheckTypes raw, Agent.detailLabel ct port = k := by
  simp [Agent.runOne, Agent.summarize, isSome_byLabel]

/-- The labels of the core. -/
theorem Server.isSome_detail :
    ((Server.hostCheck port (Server.results py raw outcome)).detail k).isSome ↔
      ∃ ct ∈ Server.checkTypes raw, Server.label ct port = k := by
  simp [Server.hostCheck, Server.results, isSome_byLabel]

/-- A label that is not of `tcp` is the check type. -/
theorem Agent.detailLabel_of_ne (hct : ct ≠ "tcp") : Agent.detailLabel ct port = ct := by
  cases port <;> simp [Agent.detailLabel, hct]

theorem Server.label_of_ne (hct : ct ≠ "tcp") : Server.label ct port = ct := by
  cases port <;> simp [Server.label, hct]

theorem Server.label_tcp (hport : port ≠ some 0) :
    Server.label "tcp" port = Agent.detailLabel "tcp" port := by
  cases port with
  | none => rfl
  | some p =>
    have hp : p ≠ 0 := fun h => hport (congrArg some h)
    simp [Server.label, Agent.detailLabel, hp]

/-- The characters of a label with a port. -/
theorem plain_of_mem_tcp_port {p : ℕ} {c : Char} (hc : c ∈ ("tcp:" ++ toString p).toList) :
    c.toNat < 128 ∧ c.toLower = c ∧ Text.isSpace c = false := by
  rw [String.toList_append, List.mem_append] at hc
  rcases hc with hc | hc
  · have hall : "tcp:".toList.all fun c =>
        c.toNat < 128 ∧ c.toLower = c ∧ Text.isSpace c = false := by
      decide
    simpa using List.all_eq_true.mp hall c hc
  · have hdigit : c.isDigit = true := by
      refine Nat.isDigit_of_mem_toDigits (b := 10) (n := p) (by decide) (by decide) ?_
      simpa using hc
    simp only [Char.isDigit, Bool.and_eq_true, decide_eq_true_eq] at hdigit
    have hlow : 48 ≤ c.toNat := hdigit.1
    have hhigh : c.toNat ≤ 57 := hdigit.2
    refine ⟨by omega, ?_, ?_⟩
    · apply Char.toNat_inj.mp
      rw [Text.toNat_toLower, if_neg (by omega)]
    · simp only [Text.isSpace, Text.isWhitespace, Bool.or_eq_false_iff, Bool.and_eq_false_iff,
        decide_eq_false_iff_not, beq_eq_false_iff_ne]
      omega

/-- A label with a port is ASCII, in lower case, and has no white space around it. -/
theorem asciiLower_tcp_port (p : ℕ) :
    Text.asciiLower ("tcp:" ++ toString p) = "tcp:" ++ toString p := by
  rw [Text.asciiLower, List.map_congr_left fun c hc => (plain_of_mem_tcp_port hc).2.1, List.map_id',
    String.ofList_toList]

theorem strip_tcp_port (p : ℕ) : Text.strip ("tcp:" ++ toString p) = "tcp:" ++ toString p :=
  Text.strip_of_forall fun _ hc => (plain_of_mem_tcp_port hc).2.2

theorem Agent.asciiLower_of_mem (hct : ct ∈ Agent.parseCheckTypes raw) :
    Text.asciiLower ct = ct := by
  simp only [Agent.parseCheckTypes] at hct
  split_ifs at hct
  · obtain rfl := List.mem_singleton.mp hct
    rfl
  · obtain ⟨t, -, rfl⟩ := List.mem_map.mp (List.mem_of_mem_filter hct)
    exact Text.asciiLower_asciiLower _

theorem Agent.asciiLower_detailLabel (hct : ct ∈ Agent.parseCheckTypes raw) :
    Text.asciiLower (Agent.detailLabel ct port) = Agent.detailLabel ct port := by
  by_cases htcp : ct = "tcp"
  · subst htcp
    cases port with
    | none => rfl
    | some p => simpa [Agent.detailLabel] using asciiLower_tcp_port p
  · rw [Agent.detailLabel_of_ne htcp]
    exact Agent.asciiLower_of_mem hct

theorem Server.strip_of_mem (hct : ct ∈ Server.checkTypes raw) : Text.strip ct = ct := by
  obtain ⟨t, -, rfl⟩ := List.mem_map.mp (List.mem_of_mem_filter hct)
  exact Text.strip_strip t

theorem Server.strip_label (hct : ct ∈ Server.checkTypes raw) :
    Text.strip (Server.label ct port) = Server.label ct port := by
  by_cases htcp : ct = "tcp"
  · subst htcp
    cases port with
    | none => rfl
    | some p =>
      simp only [Server.label]
      split_ifs
      · exact strip_tcp_port p
      · rfl
  · rw [Server.label_of_ne htcp]
    exact Server.strip_of_mem hct

/-- A label that is neither `tcp` nor has the port is an entry. -/
theorem Agent.eq_of_detailLabel {a : String} (htcp : ct ≠ "tcp")
    (hport : ∀ p : ℕ, "tcp:" ++ toString p ≠ ct) (hlabel : Agent.detailLabel a port = ct) :
    a = ct := by
  by_cases ha : a = "tcp"
  · subst ha
    cases port with
    | none => exact absurd hlabel.symm htcp
    | some p => exact absurd hlabel (hport p)
  · rwa [Agent.detailLabel_of_ne ha] at hlabel

theorem Server.eq_of_label {a : String} (htcp : ct ≠ "tcp")
    (hport : ∀ p : ℕ, "tcp:" ++ toString p ≠ ct) (hlabel : Server.label a port = ct) : a = ct := by
  by_cases ha : a = "tcp"
  · subst ha
    by_cases hzero : port = some 0
    · subst hzero
      exact hlabel
    · rw [Server.label_tcp hzero] at hlabel
      exact Agent.eq_of_detailLabel htcp hport hlabel
  · rwa [Server.label_of_ne ha] at hlabel

/-! ### The entries -/

theorem entries_empty : entries "" = [""] := by decide

theorem Server.mem_checkTypes : ct ∈ Server.checkTypes raw ↔
    (raw = "" ∧ ct = "icmp") ∨ ct ≠ "" ∧ ∃ t ∈ entries raw, Text.strip t = ct := by
  by_cases hempty : raw = ""
  · subst hempty
    have hstrip : Text.strip "" = "" := rfl
    have hicmp : Server.checkTypes "" = ["icmp"] := by decide
    simp only [hicmp, entries_empty, List.mem_singleton, exists_eq_left, hstrip, true_and]
    exact ⟨.inl, fun h => h.resolve_right fun hct => hct.1 hct.2.symm⟩
  · simp [Server.checkTypes, hempty, and_comm]

theorem Agent.parseCheckTypes_ne_nil (raw : String) : Agent.parseCheckTypes raw ≠ [] := by
  simp only [Agent.parseCheckTypes]
  split_ifs with hnil
  · exact List.cons_ne_nil _ _
  · exact hnil

theorem Agent.mem_parseCheckTypes {t : String} (ht : t ∈ entries raw) (hne : Text.trim t ≠ "") :
    Text.asciiLower (Text.trim t) ∈ Agent.parseCheckTypes raw := by
  have hmem : Text.asciiLower (Text.trim t) ∈
      ((entries raw).map fun t => Text.asciiLower (Text.trim t)).filter (· ≠ "") := by
    rw [List.mem_filter]
    exact ⟨List.mem_map_of_mem ht, by simpa [Text.asciiLower_eq_empty] using hne⟩
  rw [Agent.parseCheckTypes, if_neg (List.ne_nil_of_mem hmem)]
  exact hmem

/-! ### Agreement is only possible on normalised lists -/

section Necessary

variable (h : ∀ outcome, Agrees py lib raw port outcome)
include h

theorem detail_of_agrees (outcome : String → Outcome) : (Agent.runOne raw port outcome).detail =
    (Server.hostCheck port (Server.results py raw outcome)).detail := by
  obtain ⟨c, hc, -, -, hdetail⟩ := h outcome
  rw [hdetail, (Server.checkHost_eq_some.mp hc).2]

theorem exists_label_iff (k : String) :
    (∃ ct ∈ Agent.parseCheckTypes raw, Agent.detailLabel ct port = k) ↔
      ∃ ct ∈ Server.checkTypes raw, Server.label ct port = k := by
  have hdetail := detail_of_agrees h fun _ => ⟨true, none, none⟩
  have hagent : ((Agent.runOne raw port fun _ => ⟨true, none, none⟩).detail k).isSome ↔
      ∃ ct ∈ Agent.parseCheckTypes raw, Agent.detailLabel ct port = k := Agent.isSome_detail
  rw [← hagent, hdetail, Server.isSome_detail]

/-- The entries of the core are ASCII-lower-case. -/
theorem asciiLower_of_agrees (hct : ct ∈ Server.checkTypes raw) : Text.asciiLower ct = ct := by
  by_cases htcp : ct = "tcp"
  · subst htcp
    rfl
  · obtain ⟨a, ha, hlabel⟩ := (exists_label_iff h ct).mpr ⟨ct, hct, Server.label_of_ne htcp⟩
    rw [← hlabel]
    exact Agent.asciiLower_detailLabel ha

theorem lower_of_mem_of_agrees (hct : ct ∈ Server.checkTypes raw) : py.lower ct = ct := by
  by_contra hne
  have hnot : ¬∀ c ∈ ct.toList, c.toNat < 128 := fun hascii =>
    hne ((py.lower_ascii ct hascii).trans (asciiLower_of_agrees h hct))
  have htcp : ct ≠ "tcp" := by
    rintro rfl
    exact hnot (by simp)
  have hport (p : ℕ) : "tcp:" ++ toString p ≠ ct := by
    rintro rfl
    exact hnot fun c hc => (plain_of_mem_tcp_port hc).1
  -- The probe runs the check of the entry, the core that of its lower case.
  let only : String → Outcome := fun t => ⟨t = ct, none, none⟩
  have hserver : (Server.hostCheck port (Server.results py raw only)).detail ct = some false := by
    refine byLabel_eq_some ?_ ?_
    · simpa [Server.results] using ⟨ct, hct, Server.label_of_ne htcp⟩
    · simp only [Server.results, List.map_map, List.mem_map, Function.comp_apply]
      rintro _ ⟨t, -, rfl⟩ hlabel
      rw [Server.eq_of_label htcp hport hlabel]
      simpa [only] using hne
  have hagent : (Agent.runOne raw port only).detail ct = some true := by
    obtain ⟨a, ha, hlabel⟩ := (exists_label_iff h ct).mpr ⟨ct, hct, Server.label_of_ne htcp⟩
    refine byLabel_eq_some ?_ ?_
    · simpa [Agent.runOne] using ⟨a, ha, hlabel⟩
    · simp only [List.map_map, List.mem_map, Function.comp_apply]
      rintro _ ⟨t, -, rfl⟩ hlabel
      simpa [only] using Agent.eq_of_detailLabel htcp hport hlabel
  have hdetail := congrFun (detail_of_agrees h only) ct
  rw [hserver, hagent] at hdetail
  cases hdetail

theorem lower_of_agrees {t : String} (ht : t ∈ entries raw) :
    py.lower (Text.strip t) = Text.strip t := by
  by_cases hempty : Text.strip t = ""
  · rw [hempty, py.lower_empty]
  · exact lower_of_mem_of_agrees h (Server.mem_checkTypes.mpr (.inr ⟨hempty, t, ht, rfl⟩))

/-- The probe always has an entry. -/
theorem nonempty_of_agrees : raw = "" ∨ ∃ t ∈ entries raw, Text.strip t ≠ "" := by
  obtain ⟨a, ha⟩ := List.exists_mem_of_ne_nil _ (Agent.parseCheckTypes_ne_nil raw)
  obtain ⟨ct, hct, -⟩ := (exists_label_iff h _).mp ⟨a, ha, rfl⟩
  rcases Server.mem_checkTypes.mp hct with ⟨hraw, -⟩ | ⟨hne, t, ht, rfl⟩
  · exact .inl hraw
  · exact .inr ⟨t, ht, hne⟩

theorem trimmed_of_agrees {t : String} (ht : t ∈ entries raw) : Text.trim t = Text.strip t := by
  suffices hstable : Text.strip (Text.trim t) = Text.trim t from (Text.strip_eq_trim hstable).symm
  by_cases hempty : Text.trim t = ""
  · rw [hempty]
    rfl
  · have ha := Agent.mem_parseCheckTypes ht hempty
    obtain ⟨ct, hct, hlabel⟩ := (exists_label_iff h _).mp ⟨_, ha, rfl⟩
    have hstable : Text.strip (Server.label ct port) = Server.label ct port :=
      Server.strip_label hct
    rw [hlabel] at hstable
    rw [← Text.strip_asciiLower_iff]
    by_cases htcp : Text.asciiLower (Text.trim t) = "tcp"
    · rw [htcp]
      rfl
    · rwa [Agent.detailLabel_of_ne htcp] at hstable

/-- With the port zero the core leaves the label of `tcp`, which the probe never has. -/
theorem port_of_agrees (htcp : ∃ t ∈ entries raw, Text.strip t = "tcp") : port ≠ some 0 := by
  rintro rfl
  have htcp : "tcp" ∈ Server.checkTypes raw := Server.mem_checkTypes.mpr (.inr ⟨by decide, htcp⟩)
  obtain ⟨a, -, hlabel⟩ := (exists_label_iff h "tcp").mpr ⟨_, htcp, by simp [Server.label]⟩
  by_cases ha : a = "tcp"
  · subst ha
    exact absurd hlabel (by decide)
  · rw [Agent.detailLabel_of_ne ha] at hlabel
    exact ha hlabel

/-- No check of the core raises. -/
theorem answers_of_agrees {t : String} (ht : t ∈ entries raw) :
    Server.raises lib (Text.strip t) port = false := by
  obtain ⟨c, hc, -⟩ := h fun _ => ⟨true, none, none⟩
  by_cases hempty : Text.strip t = ""
  · rw [hempty]
    rfl
  · have hanswers := (Server.checkHost_eq_some.mp hc).1 _
      (Server.mem_checkTypes.mpr (.inr ⟨hempty, t, ht, rfl⟩))
    rwa [lower_of_agrees h ht] at hanswers

end Necessary

/-! ### Agreement on normalised lists -/

namespace Normalised

variable (h : Normalised py lib raw port)
include h

theorem lower_of_mem (hct : ct ∈ Server.checkTypes raw) : py.lower ct = ct := by
  rcases Server.mem_checkTypes.mp hct with ⟨-, rfl⟩ | ⟨-, t, ht, rfl⟩
  · rw [py.lower_ascii "icmp" (by simp)]
    rfl
  · exact h.lower t ht

theorem asciiLower (hct : ct ∈ Server.checkTypes raw) : Text.asciiLower ct = ct := by
  rw [← h.lower_of_mem hct, py.asciiLower_lower]

theorem checkTypes_ne_nil : Server.checkTypes raw ≠ [] := by
  rcases h.nonempty with rfl | ⟨t, ht, hne⟩
  · exact List.ne_nil_of_mem (Server.mem_checkTypes.mpr (.inl ⟨rfl, rfl⟩))
  · exact List.ne_nil_of_mem (Server.mem_checkTypes.mpr (.inr ⟨hne, t, ht, rfl⟩))

/-- Both run the same checks. -/
theorem parseCheckTypes_eq : Agent.parseCheckTypes raw = Server.checkTypes raw := by
  by_cases hempty : raw = ""
  · subst hempty
    decide
  · have htypes : ((entries raw).map fun t => Text.asciiLower (Text.trim t)).filter (· ≠ "") =
        Server.checkTypes raw := by
      have hmap : (Server.checkTypes raw).map Text.asciiLower = Server.checkTypes raw := by
        conv_rhs => rw [← List.map_id (Server.checkTypes raw)]
        exact List.map_congr_left fun ct hct => h.asciiLower hct
      conv_rhs => rw [← hmap, Server.checkTypes, if_neg hempty]
      rw [List.map_congr_left fun t ht => congrArg Text.asciiLower (h.trimmed t ht)]
      simp [List.filter_map, Function.comp_def, Text.asciiLower_eq_empty]
    rw [Agent.parseCheckTypes, htypes, if_neg h.checkTypes_ne_nil]

theorem label_eq (hct : ct ∈ Server.checkTypes raw) :
    Server.label ct port = Agent.detailLabel ct port := by
  by_cases htcp : ct = "tcp"
  · subst htcp
    rcases Server.mem_checkTypes.mp hct with ⟨-, htcp⟩ | ⟨-, htcp⟩
    · exact absurd htcp (by decide)
    · exact Server.label_tcp (h.port htcp)
  · rw [Server.label_of_ne htcp, Agent.detailLabel_of_ne htcp]

theorem answers_of_mem (hct : ct ∈ Server.checkTypes raw) :
    Server.raises lib (py.lower ct) port = false := by
  rw [h.lower_of_mem hct]
  rcases Server.mem_checkTypes.mp hct with ⟨-, rfl⟩ | ⟨-, t, ht, rfl⟩
  · rfl
  · exact h.answers t ht

theorem agrees (outcome : String → Outcome) : Agrees py lib raw port outcome := by
  have hresults : Server.results py raw outcome =
      (Server.checkTypes raw).map fun ct => (ct, outcome ct) :=
    List.map_congr_left fun ct hct => by rw [h.lower_of_mem hct]
  refine ⟨_, Server.checkHost_eq_some.mpr ⟨fun ct hct => h.answers_of_mem hct, rfl⟩, ?_, ?_, ?_⟩
  · simp only [Agent.runOne, Agent.summarize, Server.hostCheck, h.parseCheckTypes_eq, hresults]
    simp [List.filter_map, Function.comp_def]
  · simp only [Agent.runOne, Agent.summarize, Server.hostCheck, h.parseCheckTypes_eq, hresults]
    simp [List.filter_map, Function.comp_def, Option.bind_map, List.findSome?_map]
  · simp only [Agent.runOne, Agent.summarize, Server.hostCheck, h.parseCheckTypes_eq, hresults,
      List.map_map]
    congr 1
    exact List.map_congr_left fun ct hct => by simp [h.label_eq hct]

end Normalised

/-- **Probe and core agree**, whatever the checks come to, on the normalised lists only. -/
theorem agrees_iff :
    (∀ outcome, Agrees py lib raw port outcome) ↔ Normalised py lib raw port where
  mp h :=
    { nonempty := nonempty_of_agrees h
      trimmed := fun _ ht => trimmed_of_agrees h ht
      lower := fun _ ht => lower_of_agrees h ht
      port := port_of_agrees h
      answers := fun _ ht => answers_of_agrees h ht }
  mpr h := h.agrees

/-- With the list `ICMP` the probe runs the check `icmp`, and the core one of the service `ICMP`. -/
theorem not_agrees_upper :
    ¬∀ (py : Text.Lower) (lib : Server.Library) (raw : String) (port : Option ℕ)
      (outcome : String → Outcome), Agrees py lib raw port outcome := by
  intro h
  have hdetail := congrFun (detail_of_agrees (fun outcome =>
    h Text.Lower.asciiOnly ⟨fun _ => false, fun _ => true⟩ "ICMP" none outcome) fun _ => ⟨true, none, none⟩) "ICMP"
  revert hdetail
  decide

end Nodeglow.Probes
