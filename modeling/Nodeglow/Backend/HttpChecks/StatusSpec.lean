import Mathlib.Algebra.GroupWithZero.Nat
import Nodeglow.Foundation.Fallible
import Nodeglow.Foundation.Text

/-!
# Status codes of an HTTP check

The status codes that count as up are a list of codes and ranges of codes, such as `200-299,301`.
The list that is stored has the parts of the given one, trimmed, and without those that are empty.

## Main results

* `parseStatusSpec_joinParts` — the stored list is read as the given one.
* `statusMatches_iff` — a list that is accepted matches the codes that it names.

Source: `backend/utils/http_options.py`, lines 18–87, 156–159.
-/

namespace Nodeglow.HttpChecks

/-- The characters besides the decimal digits that Python's `str.isdigit` accepts. -/
def otherDigits : List (ℕ × ℕ) :=
  [(0xB2, 0xB3), (0xB9, 0xB9), (0x1369, 0x1371), (0x19DA, 0x19DA), (0x2070, 0x2070),
    (0x2074, 0x2079), (0x2080, 0x2089), (0x2460, 0x2468), (0x2474, 0x247C), (0x2488, 0x2490),
    (0x24EA, 0x24EA), (0x24F5, 0x24FD), (0x24FF, 0x24FF), (0x2776, 0x277E), (0x2780, 0x2788),
    (0x278A, 0x2792), (0x10A40, 0x10A43), (0x10E60, 0x10E68), (0x11052, 0x1105A),
    (0x1F100, 0x1F10A)]

/-- Python's `str.isdigit`. -/
def isDigit (s : String) : Bool :=
  s ≠ "" && s.toList.all fun c =>
    Text.isDecimal c || otherDigits.any fun range => range.1 ≤ c.toNat && c.toNat ≤ range.2

/-- Python's `int`, of digits. -/
def int (s : String) : Except String ℕ :=
  if s.toList.all Text.isDecimal then .ok (Text.decimalInt s.toList)
  else .error ("invalid literal for int() with base 10: '" ++ s ++ "'")

/-- `MAX_STATUS_SPEC_LEN`. -/
def maxStatusSpecLen : ℕ := 100

/-- The parts of a list: what stands between the commas, trimmed, if it is not empty. -/
def statusParts (spec : String) : List String :=
  ((spec.toList.splitOn ',').map fun part => Text.strip (String.ofList part)).filter (· ≠ "")

/-- The two ends of a part, which are one for a single code. -/
def ends (part : String) : String × String :=
  if '-' ∈ part.toList then
    (Text.strip (String.ofList (part.toList.takeWhile (· ≠ '-'))),
      Text.strip (String.ofList (part.toList.dropWhile (· ≠ '-')).tail))
  else (part, part)

/-- The range of a part. -/
def parsePart (part : String) : Except String (ℕ × ℕ) :=
  let (los, his) := ends part
  if ¬(isDigit los ∧ isDigit his) then .error ("'" ++ part ++ "' is not a status code or range")
  else do
    let lo ← int los
    let hi ← int his
    if ¬((100 ≤ lo ∧ lo ≤ 599) ∧ 100 ≤ hi ∧ hi ≤ 599) ∨ hi < lo then
      .error ("'" ++ part ++ "' is not a valid status range (100-599)")
    else .ok (lo, hi)

/-- `parse_status_spec`. -/
def parseStatusSpec (spec : String) : Except String (List (ℕ × ℕ)) :=
  if maxStatusSpecLen < spec.length then .error "expected status list is too long"
  else do
    let ranges ← (statusParts spec).mapM parsePart
    if ranges = [] then .error "expected status list is empty"
    else if 20 < ranges.length then .error "at most 20 status codes or ranges"
    else .ok ranges

/-- `status_matches`. -/
def statusMatches (code : ℕ) (ranges : Option (List (ℕ × ℕ))) : Bool :=
  match ranges with
  | none => code < 500
  | some ranges => ranges.any fun (lo, hi) => lo ≤ code ∧ code ≤ hi

/-- `",".join(p.strip() for p in status.split(",") if p.strip())`. -/
def joinParts (spec : String) : String :=
  String.ofList ([','].intercalate ((statusParts spec).map String.toList))

/-! ### The codes that a list names -/

/-- A text is a number in decimal digits. -/
def Denotes (s : String) (n : ℕ) : Prop :=
  s ≠ "" ∧ (∀ c ∈ s.toList, Text.isDecimal c) ∧ Text.decimalInt s.toList = n

/-- A part names a code: it is the code, or a range that has it. -/
def PartNames (part : String) (code : ℕ) : Prop :=
  Denotes part code ∨ ∃ lo hi l h, part.toList = lo ++ '-' :: hi ∧
    Denotes (Text.strip (String.ofList lo)) l ∧ Denotes (Text.strip (String.ofList hi)) h ∧
      l ≤ code ∧ code ≤ h

/-- **A list names a code**: one of its parts does. -/
def Names (spec : String) (code : ℕ) : Prop :=
  ∃ part ∈ spec.toList.splitOn ',', PartNames (Text.strip (String.ofList part)) code

section Join

variable {spec part : String} {ranges : List (ℕ × ℕ)}

/-- A part is trimmed, not empty, and has no comma. -/
theorem of_mem_statusParts (h : part ∈ statusParts spec) :
    part ≠ "" ∧ Text.strip part = part ∧ ',' ∉ part.toList := by
  obtain ⟨hmem, hne⟩ := List.mem_filter.mp h
  obtain ⟨run, hrun, rfl⟩ := List.mem_map.mp hmem
  refine ⟨of_decide_eq_true hne, Text.strip_strip _, fun hcomma => ?_⟩
  have hchar := Text.strip_subset _ hcomma
  rw [String.toList_ofList] at hchar
  simpa using Text.forall_of_mem_splitOnP hrun ',' hchar

/-- The stored list has the parts of the given one. -/
theorem statusParts_joinParts (spec : String) :
    statusParts (joinParts spec) = statusParts spec := by
  by_cases hnil : statusParts spec = []
  · rw [statusParts, joinParts, hnil]
    rfl
  · have hsplit : (joinParts spec).toList.splitOn ',' = (statusParts spec).map String.toList := by
      rw [joinParts, String.toList_ofList, List.splitOn_intercalate _ _ (by simpa using hnil)]
      intro run hrun
      obtain ⟨part, hpart, rfl⟩ := List.mem_map.mp hrun
      exact (of_mem_statusParts hpart).2.2
    have hstrip : ((statusParts spec).map String.toList).map
        (fun part => Text.strip (String.ofList part)) = statusParts spec := by
      rw [List.map_map]
      refine (List.map_congr_left fun part hpart => ?_).trans (List.map_id _)
      simpa using (of_mem_statusParts hpart).2.1
    have hne : (statusParts spec).filter (· ≠ "") = statusParts spec :=
      List.filter_eq_self.mpr fun part hpart => decide_eq_true (of_mem_statusParts hpart).1
    conv_lhs => rw [statusParts, hsplit, hstrip, hne]

/-- The length of a list with separators. -/
theorem length_intercalate {α : Type} (sep : α) (ls : List (List α)) (hls : ls ≠ []) :
    ([sep].intercalate ls).length + 1 = (ls.map fun l => l.length + 1).sum := by
  induction ls with
  | nil => exact absurd rfl hls
  | cons l ls ih =>
    cases ls with
    | nil => simp
    | cons l' ls =>
      have hrest := ih (List.cons_ne_nil _ _)
      rw [List.intercalate_cons_cons, List.map_cons, List.sum_cons, ← hrest]
      simp only [List.length_append, List.length_singleton]
      omega

/-- Trimmed parts without the empty ones are no longer. -/
theorem sum_length_le (runs : List (List Char)) :
    ((((runs.map fun part => Text.strip (String.ofList part)).filter (· ≠ "")).map
      String.toList).map fun l => l.length + 1).sum ≤ (runs.map fun l => l.length + 1).sum := by
  induction runs with
  | nil => exact le_rfl
  | cons run runs ih =>
    have hlength : (Text.strip (String.ofList run)).toList.length ≤ run.length := by
      rw [Text.strip, Text.trimMatches, String.toList_ofList, String.toList_ofList]
      exact (List.rdropWhile_prefix _ _).length_le.trans (List.dropWhile_suffix _).length_le
    rw [List.map_cons, List.map_cons, List.sum_cons, List.filter_cons]
    split_ifs
    · rw [List.map_cons, List.map_cons, List.sum_cons]
      omega
    · omega

theorem length_joinParts_le (spec : String) : (joinParts spec).length ≤ spec.length := by
  by_cases hnil : statusParts spec = []
  · rw [joinParts, hnil]
    exact Nat.zero_le _
  · have hspec := length_intercalate ',' _ (List.splitOn_ne_nil ',' spec.toList)
    have hjoin := length_intercalate ',' ((statusParts spec).map String.toList)
      (by simpa using hnil)
    have hle := sum_length_le (spec.toList.splitOn ',')
    rw [List.intercalate_splitOn] at hspec
    rw [joinParts, String.length_ofList, ← String.length_toList]
    rw [← statusParts] at hle
    omega

/-- A list that is accepted. -/
theorem parseStatusSpec_eq_ok : parseStatusSpec spec = .ok ranges ↔
    spec.length ≤ maxStatusSpecLen ∧ (statusParts spec).mapM parsePart = .ok ranges ∧ ranges ≠ [] ∧
      ranges.length ≤ 20 := by
  rw [parseStatusSpec]
  split_ifs with hlength
  · exact ⟨nofun, fun h => absurd hlength (Nat.not_lt.mpr h.1)⟩
  · rw [Fallible.bind_eq_ok]
    constructor
    · rintro ⟨found, hparts, h⟩
      split_ifs at h with hnil hmax
      obtain rfl := Except.ok.inj h
      exact ⟨Nat.not_lt.mp hlength, hparts, hnil, Nat.not_lt.mp hmax⟩
    · rintro ⟨-, hparts, hne, hmax⟩
      exact ⟨ranges, hparts, by rw [if_neg hne, if_neg (Nat.not_lt.mpr hmax)]⟩

theorem statusParts_ne_nil (h : parseStatusSpec spec = .ok ranges) : statusParts spec ≠ [] := by
  obtain ⟨-, hparts, hne, -⟩ := parseStatusSpec_eq_ok.mp h
  intro hnil
  rw [hnil] at hparts
  exact hne (Except.ok.inj hparts).symm

/-- **The stored list** is read as the given one. -/
theorem parseStatusSpec_joinParts (h : parseStatusSpec spec = .ok ranges) :
    parseStatusSpec (joinParts spec) = .ok ranges := by
  obtain ⟨hlength, hparts, hne, hmax⟩ := parseStatusSpec_eq_ok.mp h
  rw [← statusParts_joinParts] at hparts
  exact parseStatusSpec_eq_ok.mpr ⟨(length_joinParts_le spec).trans hlength, hparts, hne, hmax⟩

theorem getLast_suffix_intercalate {α : Type} (sep : List α) (ls : List (List α)) (hls : ls ≠ []) :
    ls.getLast hls <:+ sep.intercalate ls := by
  induction ls with
  | nil => exact absurd rfl hls
  | cons l ls ih =>
    cases ls with
    | nil => simp
    | cons l' ls =>
      rw [List.intercalate_cons_cons, List.getLast_cons (List.cons_ne_nil _ _)]
      exact (ih (List.cons_ne_nil _ _)).trans (List.suffix_append _ _)

theorem head_prefix_intercalate {α : Type} (sep l : List α) (ls : List (List α)) :
    l <+: sep.intercalate (l :: ls) := by
  cases ls with
  | nil => simp
  | cons l' ls =>
    rw [List.intercalate_cons_cons, List.append_assoc]
    exact List.prefix_append _ _

theorem strip_joinParts (spec : String) : Text.strip (joinParts spec) = joinParts spec := by
  have hpart : ∀ part ∈ statusParts spec, Text.strip part = part ∧ part ≠ "" := fun part hmem =>
    ⟨(of_mem_statusParts hmem).2.1, (of_mem_statusParts hmem).1⟩
  rw [joinParts]
  cases hparts : statusParts spec with
  | nil => rfl
  | cons part parts =>
    rw [hparts] at hpart
    have hfirst := hpart part List.mem_cons_self
    have hlast := hpart _ (List.getLast_mem (List.cons_ne_nil part parts))
    refine Text.strip_of_append hfirst.1 hlast.1 hfirst.2 hlast.2 ?_ ?_
    · rw [String.toList_ofList, List.map_cons]
      exact head_prefix_intercalate _ _ _
    · have hsuffix := getLast_suffix_intercalate [','] ((part :: parts).map String.toList)
        (by simp)
      rwa [List.getLast_map, ← String.toList_ofList (l := List.intercalate _ _)] at hsuffix

theorem joinParts_ne_empty (h : parseStatusSpec spec = .ok ranges) : joinParts spec ≠ "" := by
  intro hempty
  have hparts := statusParts_joinParts spec
  rw [hempty] at hparts
  exact statusParts_ne_nil h hparts.symm

end Join

/-! ### What a list matches -/

section Codes

variable {spec part : String} {code n lo hi : ℕ} {ranges : List (ℕ × ℕ)} {s : String}

theorem isDecimal_dash : Text.isDecimal '-' = false := by decide

theorem int_eq_ok : int s = .ok n ↔ s.toList.all Text.isDecimal ∧ Text.decimalInt s.toList = n := by
  rw [int]
  split_ifs with hall
  · simp [hall]
  · simp [hall]

/-- The number of a text that has the form of digits. -/
theorem denotes_iff (hdigit : isDigit s = true) (hint : int s = .ok n) :
    Denotes s code ↔ code = n := by
  obtain ⟨hall, rfl⟩ := int_eq_ok.mp hint
  have hne : s ≠ "" := of_decide_eq_true (Bool.and_eq_true_iff.mp hdigit).1
  constructor
  · exact fun h => h.2.2.symm
  · rintro rfl
    exact ⟨hne, by simpa using hall, rfl⟩

theorem notMem_of_denotes (h : Denotes (Text.strip s) n) : '-' ∉ s.toList := by
  intro hdash
  have hmem := Text.mem_strip hdash (by decide)
  exact absurd (h.2.1 '-' hmem) (by simp [isDecimal_dash])

/-- A part that is accepted. -/
theorem parsePart_eq_ok : parsePart part = .ok (lo, hi) ↔
    (isDigit (ends part).1 ∧ isDigit (ends part).2) ∧ int (ends part).1 = .ok lo ∧
      int (ends part).2 = .ok hi ∧ ((100 ≤ lo ∧ lo ≤ 599) ∧ 100 ≤ hi ∧ hi ≤ 599) ∧ lo ≤ hi := by
  rw [parsePart]
  obtain ⟨los, his⟩ := ends part
  by_cases hdigits : isDigit los ∧ isDigit his
  · simp only [if_neg (not_not.mpr hdigits), Fallible.bind_eq_ok]
    constructor
    · rintro ⟨lo', hlo, hi', hhi, h⟩
      by_cases hrange : ((100 ≤ lo' ∧ lo' ≤ 599) ∧ 100 ≤ hi' ∧ hi' ≤ 599) ∧ lo' ≤ hi'
      · rw [if_neg (not_or.mpr ⟨not_not.mpr hrange.1, Nat.not_lt.mpr hrange.2⟩)] at h
        obtain ⟨rfl, rfl⟩ := Prod.mk.inj (Except.ok.inj h)
        exact ⟨hdigits, hlo, hhi, hrange⟩
      · rw [if_pos ((not_and_or.mp hrange).imp_right Nat.not_le.mp)] at h
        cases h
    · rintro ⟨-, hlo, hhi, hrange, hle⟩
      exact ⟨lo, hlo, hi, hhi, if_neg (not_or.mpr ⟨not_not.mpr hrange, Nat.not_lt.mpr hle⟩)⟩
  · simp only [if_pos hdigits]
    exact ⟨nofun, fun h => absurd h.1 hdigits⟩

/-- **The range of a part** has the codes that the part names. -/
theorem partNames_iff (h : parsePart part = .ok (lo, hi)) :
    PartNames part code ↔ lo ≤ code ∧ code ≤ hi := by
  obtain ⟨⟨hlod, hhid⟩, hlo, hhi, -⟩ := parsePart_eq_ok.mp h
  by_cases hdash : '-' ∈ part.toList
  · obtain ⟨x, y, hpart, hx⟩ := List.eq_append_cons_of_mem hdash
    have hends : ends part = (Text.strip (String.ofList x), Text.strip (String.ofList y)) := by
      have hall : ∀ c ∈ x, decide (c ≠ '-') = true := fun c hc =>
        decide_eq_true fun heq => hx (heq ▸ hc)
      rw [ends, if_pos hdash, hpart, Text.takeWhile_append_cons hx,
        List.dropWhile_append_of_pos hall, List.dropWhile_cons_of_neg (by simp), List.tail_cons]
    rw [hends] at hlod hhid hlo hhi
    -- A number has no dash, so the part is divided at its first one.
    have hnot : ¬Denotes part code := fun hden =>
      absurd (hden.2.1 '-' hdash) (by simp [isDecimal_dash])
    rw [PartNames, or_iff_right hnot]
    constructor
    · rintro ⟨lo', hi', l, h, heq, hl, hh, hle⟩
      have hlo' : '-' ∉ lo' := by simpa using notMem_of_denotes hl
      obtain ⟨rfl, rfl⟩ := (Text.append_cons_inj hx hlo').mp (hpart.symm.trans heq)
      obtain rfl := (denotes_iff hlod hlo).mp hl
      obtain rfl := (denotes_iff hhid hhi).mp hh
      exact hle
    · exact fun hle => ⟨x, y, lo, hi, hpart, (denotes_iff hlod hlo).mpr rfl,
        (denotes_iff hhid hhi).mpr rfl, hle⟩
  · have hends : ends part = (part, part) := if_neg hdash
    rw [hends] at hlod hlo hhi
    obtain rfl : lo = hi := Except.ok.inj (hlo.symm.trans hhi)
    have hnot : ¬∃ lo hi l h, part.toList = lo ++ '-' :: hi ∧
        Denotes (Text.strip (String.ofList lo)) l ∧ Denotes (Text.strip (String.ofList hi)) h ∧
          l ≤ code ∧ code ≤ h := by
      rintro ⟨lo', hi', l, h, heq, -⟩
      exact hdash (by simp [heq])
    rw [PartNames, or_iff_left hnot, denotes_iff hlod hlo]
    omega

theorem any_iff_of_mapM {parts : List String} (h : parts.mapM parsePart = .ok ranges) :
    (∃ range ∈ ranges, range.1 ≤ code ∧ code ≤ range.2) ↔ ∃ part ∈ parts, PartNames part code := by
  induction parts generalizing ranges with
  | nil =>
    obtain rfl := Except.ok.inj h
    simp
  | cons part parts ih =>
    obtain ⟨range, rest, hpart, hrest, rfl⟩ := Fallible.mapM_cons_eq_ok.mp h
    rw [List.exists_mem_cons_iff, List.exists_mem_cons_iff, ih hrest, partNames_iff hpart]

/-- Only parts that are not empty name codes. -/
theorem names_iff (spec : String) (code : ℕ) :
    Names spec code ↔ ∃ part ∈ statusParts spec, PartNames part code := by
  have hempty : ¬PartNames "" code := by
    rintro (h | ⟨lo, hi, l, h, heq, -⟩)
    · exact h.1 rfl
    · cases lo <;> cases heq
  constructor
  · rintro ⟨run, hrun, hpart⟩
    have hne : Text.strip (String.ofList run) ≠ "" := fun heq => hempty (heq ▸ hpart)
    exact ⟨_, List.mem_filter.mpr ⟨List.mem_map_of_mem hrun, decide_eq_true hne⟩, hpart⟩
  · rintro ⟨part, hmem, hpart⟩
    obtain ⟨run, hrun, rfl⟩ := List.mem_map.mp (List.mem_filter.mp hmem).1
    exact ⟨run, hrun, hpart⟩

/-- **A list that is accepted** matches the codes that it names. -/
theorem statusMatches_iff (h : parseStatusSpec spec = .ok ranges) :
    statusMatches code (some ranges) = true ↔ Names spec code := by
  obtain ⟨-, hparts, -⟩ := parseStatusSpec_eq_ok.mp h
  rw [names_iff, ← any_iff_of_mapM hparts]
  simp [statusMatches]

end Codes

end Nodeglow.HttpChecks
