import Nodeglow.Backend.Syslog.Rfc5424
import Nodeglow.Foundation.RegexSearch

/-!
# The priorities of syslog messages

The priority of a message is a number: the facility, which is at most 23, times 8, and the severity.
A number of up to three digits can be greater than that of any facility. Where a message has one of
the two headers, such a number is replaced by the greatest one. Where it has a priority and no
header, it is taken as it is.

## Main results

* `valid_parse5424`, `valid_parseWithoutPriority` — the other formats.
* `valid_iff` — the priority is valid unless that number is too great.

Source: `backend/services/syslog.py`, lines 184–290.
-/

namespace Nodeglow.Syslog

/-- **A valid priority**: a severity of one digit to 7, and no facility or one up to 23. -/
def Parsed.Valid {τ : Type} (p : Parsed τ) : Prop := p.severity ≤ 7 ∧ ∀ f ∈ p.facility, f ≤ 23

/-- The number of a message that has a priority and neither of the two headers. -/
def bareNumber (isAlnum : Char → Bool) (text : List Char) : Option ℕ :=
  if rfc5424Re.firstMatch text = none ∧ (rfc3164Re isAlnum).firstMatch text = none then
    (fallbackRe.firstMatch text).bind fun m => m.1.head?.map Text.decimalInt
  else none

variable {τ : Type} {p : Parsed τ}

/-- A facility and a severity are valid together if the number of the priority is at most 191. -/
theorem valid_pri {n : ℕ} (hseverity : p.severity = n % 8) (hfacility : p.facility = some (n / 8)) :
    p.Valid ↔ n ≤ 191 := by
  have hlt : n % 8 < 8 := Nat.mod_lt n (by decide)
  rw [Parsed.Valid, hseverity, hfacility]
  simp only [Option.mem_some_iff, forall_eq']
  omega

/-! ### The formats -/

section

variable (env : ParserEnv τ) {text : List Char} (sourceIp : String)

theorem exists_of_length_eq_eight {α : Type*} : ∀ {l : List α}, l.length = 8 →
    ∃ a₁ a₂ a₃ a₄ a₅ a₆ a₇ a₈, l = [a₁, a₂, a₃, a₄, a₅, a₆, a₇, a₈]
  | [a₁, a₂, a₃, a₄, a₅, a₆, a₇, a₈], _ => ⟨a₁, a₂, a₃, a₄, a₅, a₆, a₇, a₈, rfl⟩

/-- A message with the header of RFC 5424. -/
theorem valid_parse5424 (h : rfc5424Re.firstMatch text ≠ none) :
    ∃ p, parse5424 env text sourceIp = some p ∧ p.Valid := by
  obtain ⟨⟨groups, rest⟩, hmatch⟩ := Option.ne_none_iff_exists'.mp h
  have hlength : groups.length = 8 := Regex.length_of_firstMatch rfl hmatch
  obtain ⟨pri, b₁, b₂, b₃, b₄, b₅, b₆, b₇, rfl⟩ := exists_of_length_eq_eight hlength
  rw [parse5424, hmatch]
  exact ⟨_, rfl, (valid_pri rfl rfl).mpr (min_le_right _ _)⟩

theorem parse5424_eq_none (h : rfc5424Re.firstMatch text = none) :
    parse5424 env text sourceIp = none := by
  rw [parse5424, h]

/-- A message with the header of RFC 3164. -/
theorem valid_rfc3164 (h : (rfc3164Re env.isAlnum).firstMatch text ≠ none) :
    ∃ p, parseWithPriority env text sourceIp = some p ∧ p.Valid := by
  obtain ⟨⟨groups, rest⟩, hmatch⟩ := Option.ne_none_iff_exists'.mp h
  have hlength : groups.length = 4 := Regex.length_of_firstMatch rfl hmatch
  rw [parseWithPriority, hmatch]
  match groups, hlength with
  | [_, _, _, _], _ => exact ⟨_, rfl, (valid_pri rfl rfl).mpr (min_le_right _ _)⟩

/-- **A message with a priority and no header.** -/
theorem valid_fallback (h : (rfc3164Re env.isAlnum).firstMatch text = none) :
    (fallbackRe.firstMatch text = none ∧ parseWithPriority env text sourceIp = none) ∨
      ∃ m p, fallbackRe.firstMatch text = some m ∧
        parseWithPriority env text sourceIp = some p ∧
          (p.Valid ↔ ∀ n ∈ m.1.head?.map Text.decimalInt, n ≤ 191) := by
  rw [parseWithPriority, h]
  cases hmatch : fallbackRe.firstMatch text with
  | none => exact .inl ⟨rfl, rfl⟩
  | some m =>
    obtain ⟨groups, rest⟩ := m
    have hlength : groups.length = 2 := Regex.length_of_firstMatch rfl hmatch
    match groups, hlength with
    | [_, _], _ =>
      refine .inr ⟨_, _, rfl, rfl, (valid_pri rfl rfl).trans ?_⟩
      simp only [List.head?_cons, Option.map_some, Option.mem_some_iff, forall_eq']

/-- A message without a priority. -/
theorem valid_parseWithoutPriority : (parseWithoutPriority env text sourceIp).Valid := by
  have hsix : 6 ≤ 7 := by decide
  rw [parseWithoutPriority]
  split
  · exact ⟨hsix, nofun⟩
  · exact ⟨hsix, nofun⟩

end

/-! ### The parser -/

/-- **The priority of every parsed message is valid**, if and only if the number of a message with a
priority and no header is at most 191. -/
theorem valid_iff (env : ParserEnv τ) (raw sourceIp : String) :
    (∀ p, parseSyslog env raw sourceIp = some p → p.Valid) ↔
      ∀ n ∈ bareNumber env.isAlnum (Text.strip raw).toList, n ≤ 191 := by
  rw [parseSyslog, bareNumber]
  generalize (Text.strip raw).toList = text
  have hnumber : ∀ n ∈ (none : Option ℕ), n ≤ 191 := fun n hn =>
    absurd hn (Option.not_mem_none n)
  split_ifs with hempty hheaders hheaders
  · subst hempty
    exact iff_of_true (fun _ hp => hp.elim) hnumber
  · exact iff_of_true (fun _ hp => hp.elim) hnumber
  · rw [parse5424_eq_none env sourceIp hheaders.1, Option.none_or]
    simp only [Option.some.injEq, forall_eq']
    rcases valid_fallback env sourceIp hheaders.2 with
      ⟨hnone, hparse⟩ | ⟨m, p, hmatch, hparse, hvalid⟩
    · rw [hparse, hnone]
      exact iff_of_true (valid_parseWithoutPriority env sourceIp) hnumber
    · rw [hparse, hmatch]
      exact hvalid
  · refine iff_of_true (fun p hp => ?_) hnumber
    obtain rfl := Option.some.inj hp
    by_cases h5424 : rfc5424Re.firstMatch text = none
    · obtain ⟨p, hparse, hvalid⟩ := valid_rfc3164 env sourceIp
        fun h3164 => hheaders ⟨h5424, h3164⟩
      rw [parse5424_eq_none env sourceIp h5424, hparse]
      exact hvalid
    · obtain ⟨p, hparse, hvalid⟩ := valid_parse5424 env sourceIp h5424
      rw [hparse]
      exact hvalid

/-- **A facility that does not exist.** -/
theorem not_valid_sample :
    ¬∀ p, parseSyslog sampleEnv "<999>link down" "10.0.0.1" = some p → p.Valid := by
  intro h
  have hparse : (parseSyslog sampleEnv "<999>link down" "10.0.0.1").map Parsed.facility =
      some (some 124) := by
    decide +kernel
  obtain ⟨p, hp, hfacility⟩ := Option.map_eq_some_iff.mp hparse
  exact absurd ((h p hp).2 124 hfacility) (by decide)

end Nodeglow.Syslog
