import Nodeglow.Foundation.Delimited
import Nodeglow.Foundation.OrderedDict
import Mathlib.Data.List.Dedup

/-!
# Placeholders

Before a text goes to an AI provider, each value that is found in it is replaced by a placeholder
such as `<IP_1>`. A redactor lasts for one request. It numbers the values of each kind, with one
placeholder for all spellings of a value whose kind ignores the case, and remembers the value for
each placeholder, but not for a secret. In the answer the placeholders are replaced by the values
again.

## Main results

* `delimited_placeholderRe` — `placeholderRe` matches the placeholders and nothing else.
* `Redactor.Valid.issueAll` — every redactor is valid, after any values.

Source: `backend/services/ai_redaction.py`, lines 20–40 and 148–234.
-/

namespace Nodeglow.AiRedaction

open Pattern

/-! ### The form of placeholders -/

/-- Placeholder kinds. -/
inductive Kind
  | ip
  | ipv6
  | mac
  | email
  | user
  | host
  | secret
  | sid
  deriving DecidableEq, Repr

/-- The kinds, as the pattern has them. -/
def kinds : List Kind := [.ip, .ipv6, .mac, .email, .user, .host, .secret, .sid]

def Kind.name : Kind → List Char
  | ip => "IP".toList
  | ipv6 => "IPV6".toList
  | mac => "MAC".toList
  | email => "EMAIL".toList
  | user => "USER".toList
  | host => "HOST".toList
  | secret => "SECRET".toList
  | sid => "SID".toList

/-- `_NO_RESTORE`. -/
def noRestore : List Kind := [.secret]

/-- The kinds for which the case makes no difference. -/
def foldsCase : List Kind := [.email, .host, .mac, .ipv6, .user]

/-- The groups of the patterns: those with a number, and those with a name. -/
inductive Group
  | first
  | second
  | third
  | key
  | sep
  | q
  | val
  | v
  deriving DecidableEq, Repr

/-- `PLACEHOLDER_RE`. -/
def placeholderRe : Pattern Group :=
  concat [lit '<', .group .first (oneOf (kinds.map fun k => lits k.name)), lit '_',
    .group .second (.chars Text.isDecimal 1 none), lit '>']

/-- `_MAX_PLACEHOLDER_LEN`. -/
def maxPlaceholderLen : ℕ := 16

/-- `_is_placeholder`. -/
def isPlaceholder (value : List Char) : Bool :=
  (placeholderRe.allMatches none value).any fun m => m.2.isEmpty

/-- The placeholder of a kind with some digits. -/
def placeholderOf (k : Kind) (digits : List Char) : List Char :=
  '<' :: (k.name ++ '_' :: (digits ++ ['>']))

/-- A text of the form of placeholders. -/
def IsPlaceholder (s : List Char) : Prop :=
  ∃ k digits, digits ≠ [] ∧ (∀ c ∈ digits, Text.isDecimal c = true) ∧ s = placeholderOf k digits

theorem mem_kinds (k : Kind) : k ∈ kinds := by cases k <;> decide

theorem notMem_name (k : Kind) : '<' ∉ k.name ∧ '>' ∉ k.name ∧ '_' ∉ k.name := by
  cases k <;> decide

theorem name_injective {k k' : Kind} (h : k.name = k'.name) : k = k' := by
  revert h
  cases k <;> cases k' <;> decide

theorem leaves_placeholderRe {prev : Option Char} {s rest : List Char} :
    placeholderRe.Leaves prev s rest ↔ ∃ t, IsPlaceholder t ∧ s = t ++ rest := by
  have hsteps : placeholderRe.Leaves prev s rest ↔ ∃ (k : Kind) (digits : List Char),
      s = '<' :: (k.name ++ '_' :: (digits ++ '>' :: rest)) ∧
        (∀ c ∈ digits, Text.isDecimal c = true) ∧ 1 ≤ digits.length := by
    simp only [placeholderRe, concat, leaves_seq, leaves_lit, leaves_group, leaves_oneOf, leaves_lits,
      leaves_chars, List.mem_map, exists_exists_and_eq_and]
    constructor
    · rintro ⟨_, rfl, _, ⟨k, -, rfl⟩, _, rfl, _, ⟨digits, rfl, hdigits, hlen, -⟩, rfl⟩
      exact ⟨k, digits, rfl, hdigits, hlen⟩
    · rintro ⟨k, digits, rfl, hdigits, hlen⟩
      exact ⟨_, rfl, _, ⟨k, mem_kinds k, rfl⟩, _, rfl, _, ⟨digits, rfl, hdigits, hlen, nofun⟩, rfl⟩
  rw [hsteps]
  constructor
  · rintro ⟨k, digits, rfl, hdigits, hlen⟩
    exact ⟨_, ⟨k, digits, List.ne_nil_of_length_pos hlen, hdigits, rfl⟩, by simp [placeholderOf]⟩
  · rintro ⟨t, ⟨k, digits, hne, hdigits, rfl⟩, rfl⟩
    exact ⟨k, digits, by simp [placeholderOf], hdigits, List.length_pos_of_ne_nil hne⟩

/-- **The pattern of placeholders** matches the placeholders, which stand between angle brackets. -/
theorem delimited_placeholderRe : placeholderRe.Delimited IsPlaceholder '<' '>' where
  leaves_iff _ _ _ := leaves_placeholderRe
  shape := by
    rintro t ⟨k, digits, -, hdigits, rfl⟩
    have hbracket (c : Char) (hc : Text.isDecimal c = false) : c ∉ digits := fun hmem =>
      absurd (hdigits c hmem) (by simp [hc])
    refine ⟨k.name ++ '_' :: digits, by simp [placeholderOf], ?_, ?_⟩
    · simp [notMem_name, hbracket '<' (by decide)]
    · simp [notMem_name, hbracket '>' (by decide)]
  ne := by decide

/-! ### Redactors -/

/-- `str.lower`. -/
def lower (py : Text.Lower) (s : List Char) : List Char := (py.lower (String.ofList s)).toList

/-- The text under which a value is looked up. -/
def norm (py : Text.Lower) (k : Kind) (value : List Char) : List Char :=
  if k ∈ foldsCase then lower py value else value

/-- A placeholder with its number. -/
def placeholderText (k : Kind) (n : ℕ) : List Char := placeholderOf k (Nat.toDigits 10 n)

/-- `Redactor`. Instead of the pattern for the known hosts it has the hosts. -/
structure Redactor where
  enabled : Bool
  redactHostnames : Bool
  knownHosts : List (List Char)
  forward : OrderedDict (Kind × List Char) (List Char)
  reverse : OrderedDict (List Char) (List Char)
  originals : OrderedDict (List Char) (List Char)
  counters : OrderedDict Kind ℕ

namespace Redactor

/-- The hosts for which a redactor looks, the longest first. The order in a set is not fixed; it
makes no difference for hosts of one length. -/
def hostsOf (redactHostnames : Bool) (knownHostnames : List (List Char)) : List (List Char) :=
  if redactHostnames then
    let names := knownHostnames.map fun h => (h.dropWhile Text.isSpace).rdropWhile Text.isSpace
    (names.filter fun h => 3 ≤ h.length && !h.contains ' ').dedup.mergeSort fun h h' =>
      h'.length ≤ h.length
  else []

/-- `Redactor.__init__`. -/
def new (enabled redactHostnames : Bool) (knownHostnames : List (List Char)) : Redactor where
  enabled := enabled
  redactHostnames := redactHostnames
  knownHosts := hostsOf redactHostnames knownHostnames
  forward := .empty
  reverse := .empty
  originals := .empty
  counters := .empty

/-- How many placeholders of a kind there are. -/
def counter (st : Redactor) (k : Kind) : ℕ := (st.counters.get k).getD 0

/-- A new placeholder for a value. -/
def issue (py : Text.Lower) (st : Redactor) (k : Kind) (value : List Char) : List Char × Redactor :=
  let n := st.counter k + 1
  let ph := placeholderText k n
  (ph, { st with
    counters := st.counters.set k n
    forward := st.forward.set (k, norm py k value) ph
    originals := st.originals.set ph value
    reverse := if k ∈ noRestore then st.reverse else st.reverse.set ph value })

/-- `Redactor.placeholder`. -/
def placeholder (py : Text.Lower) (st : Redactor) (k : Kind) (value : List Char) :
    List Char × Redactor :=
  match st.forward.get (k, norm py k value) with
  | some ph => (ph, st)
  | none => st.issue py k value

/-- The redactor after some values were given to it. -/
def issueAll (py : Text.Lower) (st : Redactor) (issued : List (Kind × List Char)) : Redactor :=
  issued.foldl (fun st x => (st.placeholder py x.1 x.2).2) st

/-- What stands for a placeholder in an answer. -/
def original (st : Redactor) (ph : List Char) : List Char := (st.reverse.get ph).getD ph

/-- `Redactor.restore`. -/
def restore (st : Redactor) (text : List Char) : List Char :=
  if text = [] ∨ st.reverse.items = [] then text else placeholderRe.replace st.original text

variable {py : Text.Lower} {st : Redactor} {k k' : Kind} {value v w w' ph : List Char} {n n' : ℕ}

theorem placeholder_of_get (h : st.forward.get (k, norm py k value) = some ph) :
    st.placeholder py k value = (ph, st) := by
  rw [placeholder, h]

theorem placeholder_of_none (h : st.forward.get (k, norm py k value) = none) :
    st.placeholder py k value = st.issue py k value := by
  rw [placeholder, h]

theorem restore_eq (st : Redactor) (text : List Char) :
    st.restore text = placeholderRe.replace st.original text := by
  rw [restore]
  split_ifs with hnone
  · rcases hnone with rfl | hempty
    · rfl
    · refine (delimited_placeholderRe.replace_eq_self (fun ph _ => ?_) text).symm
      rw [original, OrderedDict.get, hempty]
      rfl
  · rfl

theorem restore_placeholder (st : Redactor) (hph : IsPlaceholder ph) :
    st.restore ph = st.original ph := by
  have hcode := delimited_placeholderRe.replace_code (g := st.original) hph []
  rw [List.append_nil] at hcode
  rw [restore_eq, hcode]
  exact List.append_nil _

/-! ### What holds of a redactor -/

theorem isPlaceholder_placeholderText (k : Kind) (n : ℕ) : IsPlaceholder (placeholderText k n) := by
  refine ⟨k, Nat.toDigits 10 n, List.ne_nil_of_length_pos Nat.length_toDigits_pos, fun c hc => ?_, rfl⟩
  exact Text.isDecimal_of_isDigit (Nat.isDigit_of_mem_toDigits (by decide) (by decide) hc)

theorem placeholderText_inj : placeholderText k n = placeholderText k' n' ↔ k = k' ∧ n = n' := by
  constructor
  · intro h
    obtain ⟨hname, hdigits⟩ :=
      (Text.append_cons_inj (notMem_name k).2.2 (notMem_name k').2.2).mp (List.cons.inj h).2
    have htoDigits := List.append_cancel_right hdigits
    have hn := congrArg Text.decimalInt htoDigits
    rw [Text.decimalInt_toDigits, Text.decimalInt_toDigits] at hn
    exact ⟨name_injective hname, hn⟩
  · rintro ⟨rfl, rfl⟩
    rfl

/-- **Valid redactors.** Each value that was replaced has a placeholder of its own with a number up
to the counter. The placeholders that are not for secrets, and no others, are replaced by the value
again, in a spelling that was the first. -/
structure Valid (py : Text.Lower) (st : Redactor) : Prop where
  numbered : ∀ {k w ph}, st.forward.get (k, w) = some ph →
    ∃ n ≤ st.counter k, ph = placeholderText k n
  injective : ∀ {k w k' w' ph}, st.forward.get (k, w) = some ph →
    st.forward.get (k', w') = some ph → w = w'
  restored : ∀ {k w ph}, st.forward.get (k, w) = some ph → k ∉ noRestore →
    ∃ v, st.reverse.get ph = some v ∧ norm py k v = w
  issued : ∀ {ph v}, st.reverse.get ph = some v →
    ∃ k ∉ noRestore, st.forward.get (k, norm py k v) = some ph

theorem valid_new (py : Text.Lower) (enabled redactHostnames : Bool) (hosts : List (List Char)) :
    Valid py (new enabled redactHostnames hosts) where
  numbered := nofun
  injective := nofun
  restored := nofun
  issued := nofun

theorem counter_issue (st : Redactor) (k k' : Kind) (v : List Char) :
    (st.issue py k v).2.counter k' = if k' = k then st.counter k + 1 else st.counter k' := by
  rw [issue, counter]
  simp only [OrderedDict.get_set]
  split_ifs <;> rfl

theorem forward_issue (st : Redactor) (k k' : Kind) (v w : List Char) :
    (st.issue py k v).2.forward.get (k', w) =
      if (k', w) = (k, norm py k v) then some (placeholderText k (st.counter k + 1))
      else st.forward.get (k', w) :=
  OrderedDict.get_set

theorem reverse_issue (st : Redactor) (k : Kind) (v ph : List Char) :
    (st.issue py k v).2.reverse.get ph =
      if ph = placeholderText k (st.counter k + 1) ∧ k ∉ noRestore then some v
      else st.reverse.get ph := by
  rw [issue]
  by_cases hk : k ∈ noRestore
  · simp [hk]
  · simp [hk, OrderedDict.get_set]

/-- The number of a new placeholder is new. -/
theorem Valid.ne_new (h : st.Valid py) (hget : st.forward.get (k, w) = some ph) (k' : Kind) :
    ph ≠ placeholderText k' (st.counter k' + 1) := by
  obtain ⟨n, hn, rfl⟩ := h.numbered hget
  rintro heq
  obtain ⟨rfl, rfl⟩ := placeholderText_inj.mp heq
  omega

theorem counter_le_issue (st : Redactor) (k k' : Kind) (v : List Char) :
    st.counter k' ≤ (st.issue py k v).2.counter k' := by
  rw [counter_issue]
  split_ifs with hk
  · rw [hk]
    exact Nat.le_succ _
  · exact le_rfl

/-- Old placeholders stay. -/
theorem get_issue_of_get (hnone : st.forward.get (k, norm py k v) = none)
    (hget : st.forward.get (k', w) = some ph) :
    (st.issue py k v).2.forward.get (k', w) = some ph := by
  rw [forward_issue, if_neg, hget]
  intro heq
  rw [heq, hnone] at hget
  cases hget

theorem Valid.issue (h : st.Valid py) (hnone : st.forward.get (k, norm py k v) = none) :
    (st.issue py k v).2.Valid py where
  numbered := by
    intro k' w ph hget
    rw [forward_issue] at hget
    split_ifs at hget with heq
    · obtain ⟨rfl, rfl⟩ := Prod.mk.inj heq
      refine ⟨st.counter k' + 1, ?_, (Option.some.inj hget).symm⟩
      rw [counter_issue, if_pos rfl]
    · obtain ⟨n, hn, rfl⟩ := h.numbered hget
      exact ⟨n, hn.trans (counter_le_issue st k k' v), rfl⟩
  injective := by
    intro k₁ w₁ k₂ w₂ ph h₁ h₂
    rw [forward_issue] at h₁ h₂
    split_ifs at h₁ h₂ with heq₁ heq₂ heq₂
    · rw [(Prod.mk.inj heq₁).2, (Prod.mk.inj heq₂).2]
    · exact absurd (Option.some.inj h₁).symm (h.ne_new h₂ k)
    · exact absurd (Option.some.inj h₂).symm (h.ne_new h₁ k)
    · exact h.injective h₁ h₂
  restored := by
    intro k' w ph hget hk'
    rw [forward_issue] at hget
    rw [reverse_issue]
    split_ifs at hget with heq
    · obtain ⟨rfl, rfl⟩ := Prod.mk.inj heq
      exact ⟨v, if_pos ⟨(Option.some.inj hget).symm, hk'⟩, rfl⟩
    · rw [if_neg fun heq => h.ne_new hget k heq.1]
      exact h.restored hget hk'
  issued := by
    intro ph v' hget
    rw [reverse_issue] at hget
    split_ifs at hget with heq
    · obtain ⟨rfl, hk⟩ := heq
      obtain rfl := Option.some.inj hget
      exact ⟨k, hk, by rw [forward_issue, if_pos rfl]⟩
    · obtain ⟨k', hk', hget'⟩ := h.issued hget
      exact ⟨k', hk', get_issue_of_get hnone hget'⟩

theorem Valid.placeholder (h : st.Valid py) (k : Kind) (v : List Char) :
    (st.placeholder py k v).2.Valid py := by
  cases hget : st.forward.get (k, norm py k v) with
  | some ph => rwa [placeholder_of_get hget]
  | none =>
    rw [placeholder_of_none hget]
    exact h.issue hget

/-- **Every redactor** is valid, after any values. -/
theorem Valid.issueAll (h : st.Valid py) (issued : List (Kind × List Char)) :
    (st.issueAll py issued).Valid py := by
  induction issued generalizing st with
  | nil => exact h
  | cons x issued ih => exact ih (h.placeholder x.1 x.2)

end Redactor

end Nodeglow.AiRedaction
