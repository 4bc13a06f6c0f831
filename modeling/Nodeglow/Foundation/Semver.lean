import Mathlib.Data.String.Basic

/-!
# Semantic versions

The versions of Semantic Versioning 2.0.0 with their text and their precedence, and the comparison
of lists by the first items that differ.

## Main definitions

* `Semver.Identifier`, `Semver.Version`, `Semver.Version.Valid`, `Semver.Version.text`.
* `Semver.Identifier.Lt`, `Semver.PreLt`, `Semver.Version.Precedes` — the precedence of section 11.

## Main results

* `Semver.compareLex_lt_iff` — comparing lists decides the lexicographic order of what is compared.
-/

namespace Nodeglow.Semver

/-- An identifier of a pre-release. -/
inductive Identifier where
  | numeric (n : ℕ)
  | alphanumeric (s : String)
deriving DecidableEq, Repr

/-- The text of an identifier; a number has no leading zeros. -/
def Identifier.text : Identifier → String
  | numeric n => toString n
  | alphanumeric s => s

/-- The precedence of identifiers: numbers by their value, others by their characters, and numbers
below others. -/
inductive Identifier.Lt : Identifier → Identifier → Prop
  | numeric {m n : ℕ} (h : m < n) : Lt (.numeric m) (.numeric n)
  | alphanumeric {s t : String} (h : s < t) : Lt (.alphanumeric s) (.alphanumeric t)
  | kind (n : ℕ) (s : String) : Lt (.numeric n) (.alphanumeric s)

/-- The precedence of what follows the three numbers: a pre-release is below the release, and two
pre-releases are compared by the first identifiers that differ, a beginning below the whole. -/
inductive PreLt : List Identifier → List Identifier → Prop
  | release (i : Identifier) (is : List Identifier) : PreLt (i :: is) []
  | fields {is js : List Identifier} (hne : is ≠ []) (h : List.Lex Identifier.Lt is js) : PreLt is js

/-- A version; one without identifiers of a pre-release is a release. -/
structure Version where
  major : ℕ
  minor : ℕ
  patch : ℕ
  pre : List Identifier
  build : List String
deriving DecidableEq, Repr

/-- **Precedence** of versions. The build metadata has no part in it. -/
inductive Version.Precedes (v w : Version) : Prop
  | major (h : v.major < w.major)
  | minor (hmajor : v.major = w.major) (h : v.minor < w.minor)
  | patch (hmajor : v.major = w.major) (hminor : v.minor = w.minor) (h : v.patch < w.patch)
  | pre (hmajor : v.major = w.major) (hminor : v.minor = w.minor) (hpatch : v.patch = w.patch)
      (h : PreLt v.pre w.pre)

/-- A text of ASCII letters, digits and hyphens that is not empty. -/
def IsIdentifier (s : String) : Prop := s ≠ "" ∧ ∀ c ∈ s.toList, c.isAlphanum ∨ c = '-'

/-- What the grammar asks of a version: its identifiers are some, and one that is not numeric is not
made of digits only. -/
structure Version.Valid (v : Version) : Prop where
  pre : ∀ s, .alphanumeric s ∈ v.pre → IsIdentifier s ∧ ∃ c ∈ s.toList, ¬c.isDigit
  build : ∀ s ∈ v.build, IsIdentifier s

/-- Identifiers with dots between them, behind a sign, or nothing where there are none. -/
def group (sign : String) (ids : List String) : String :=
  if ids = [] then "" else sign ++ ".".intercalate ids

/-- The text of a version. -/
def Version.text (v : Version) : String :=
  toString v.major ++ "." ++ toString v.minor ++ "." ++ toString v.patch ++
    group "-" (v.pre.map Identifier.text) ++ group "+" v.build

/-! ### Comparing lists -/

section CompareLex

variable {α : Type*} {cmp : α → α → Ordering} {r : α → α → Prop}

/-- **Comparing lists** decides the lexicographic order where comparing items decides theirs. -/
theorem compareLex_lt_iff (heq : ∀ a b, cmp a b = .eq ↔ a = b) (hlt : ∀ a b, cmp a b = .lt ↔ r a b)
    (l m : List α) : List.compareLex cmp l m = .lt ↔ List.Lex r l m := by
  induction l generalizing m with
  | nil => cases m <;> simp [List.compareLex_nil_nil, List.compareLex_nil_cons]
  | cons a l ih =>
    cases m with
    | nil => simp [List.compareLex_cons_nil]
    | cons b m =>
      rw [List.compareLex_cons_cons, Ordering.then_eq_lt, hlt, heq, ih]
      constructor
      · rintro (hr | ⟨rfl, hlex⟩)
        · exact .rel hr
        · exact .cons hlex
      · intro hlex
        cases hlex with
        | rel hr => exact .inl hr
        | cons hlex => exact .inr ⟨rfl, hlex⟩

/-- Comparing by what a function says of the things. -/
theorem transCmp_comap {β : Type*} (cmp : β → β → Ordering) [Std.TransCmp cmp] (f : α → β) :
    Std.TransCmp fun a b => cmp (f a) (f b) where
  eq_swap {a b} := (Std.OrientedCmp.eq_swap : cmp (f a) (f b) = _)
  isLE_trans {a _ c} hab hbc := (Std.TransCmp.isLE_trans hab hbc : (cmp (f a) (f c)).isLE)

end CompareLex

end Nodeglow.Semver
