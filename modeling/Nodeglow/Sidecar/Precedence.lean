import Nodeglow.Foundation.Semver
import Nodeglow.Sidecar.Releases

/-!
# The precedence of releases

The updater compares versions by the keys of their tags. These are in the order of the precedence of
semantic versions, so the releases it offers are those above the running version, in descending
precedence (`newerReleases_spec`).

The updater also reads tags that are no semantic versions, with leading zeros, digits of other
scripts, or empty identifiers; they have the version that is read. A number in a tag has as many
digits as `int` takes, and the notes of a release are a text or none.

## Main results

* `versionOf_text` — the text of a version is read as that version.
* `compareKey_lt_iff` — keys are compared as versions are.

Source: `sidecar/image_update.py`, lines 84, 116–140 and 214–244.
-/

namespace Nodeglow.Sidecar

open Semver (Identifier Version)

/-! ### The version of a tag -/

/-- What `_pre_key` takes an identifier for. -/
def identifierOf (p : String) : Identifier :=
  if p ≠ "" && p.toList.all fun c => (digitValue c).isSome then
    .numeric (p.toList.foldl (fun n c => 10 * n + (digitValue c).getD 0) 0)
  else .alphanumeric p

/-- The version in a tag, without its build metadata, which is not kept. -/
def versionOf (value : String) : Option Version :=
  (parseSemver value).map fun (major, minor, patch, pre) =>
    ⟨major, minor, patch, if pre = "" then [] else (Text.split '.' pre).map identifierOf, []⟩

/-- The key of an identifier. -/
def identifierKey : Identifier → ℕ × ℕ × String
  | .numeric n => (0, n, "")
  | .alphanumeric s => (1, 0, s)

/-- The key of a version. -/
def precedenceKey (v : Version) : SemverKey :=
  ⟨[v.major, v.minor, v.patch], if v.pre = [] then 1 else 0, v.pre.map identifierKey⟩

theorem identifierKey_identifierOf (p : String) :
    identifierKey (identifierOf p) =
      if p ≠ "" && p.toList.all fun c => (digitValue c).isSome then
        (0, p.toList.foldl (fun n c => 10 * n + (digitValue c).getD 0) 0, "")
      else (1, 0, p) := by
  rw [identifierOf]
  split_ifs <;> rfl

/-- The key of a text is that of the version in it. -/
theorem semverKey_eq (value : String) : semverKey value = (versionOf value).map precedenceKey := by
  rw [semverKey, versionOf, Option.map_map]
  congr 1
  funext ⟨major, minor, patch, pre⟩
  by_cases hpre : pre = ""
  · simp [precedenceKey, hpre]
  · simp [precedenceKey, hpre, Text.split_ne_nil, preKey, identifierKey_identifierOf]

/-! ### Keys are compared as versions are -/

section Compare

variable {v w : Version}

theorem compareList_eq {α : Type} (cmp : α → α → Ordering) :
    compareList cmp = List.compareLex cmp := by
  funext l m
  induction l generalizing m with
  | nil => cases m <;> rfl
  | cons a l ih =>
    cases m with
    | nil => rfl
    | cons b m => rw [compareList, List.compareLex_cons_cons, ih]

theorem compareList_map {α β : Type} (cmp : β → β → Ordering) (f : α → β) (l m : List α) :
    compareList cmp (l.map f) (m.map f) = List.compareLex (fun a b => cmp (f a) (f b)) l m := by
  induction l generalizing m with
  | nil => cases m <;> rfl
  | cons a l ih =>
    cases m with
    | nil => rfl
    | cons b m => rw [List.map_cons, List.map_cons, compareList, List.compareLex_cons_cons, ih]

theorem compareIdentifier_lt_iff (i j : Identifier) :
    compareIdentifier (identifierKey i) (identifierKey j) = .lt ↔ i.Lt j := by
  cases i with
  | numeric m =>
    cases j with
    | numeric n =>
      have hlt : (Identifier.numeric m).Lt (.numeric n) ↔ m < n :=
        ⟨fun h => by cases h; assumption, .numeric⟩
      simp [compareIdentifier, identifierKey, hlt, compare_lt_iff_lt]
    | alphanumeric t =>
      exact iff_of_true (by rfl) (.kind m t)
  | alphanumeric s =>
    cases j with
    | numeric n =>
      have hgt : compareIdentifier (identifierKey (.alphanumeric s)) (identifierKey (.numeric n)) =
          .gt := rfl
      rw [hgt]
      exact iff_of_false nofun nofun
    | alphanumeric t =>
      have hlt : (Identifier.alphanumeric s).Lt (.alphanumeric t) ↔ s < t :=
        ⟨fun h => by cases h; assumption, .alphanumeric⟩
      simp [compareIdentifier, identifierKey, hlt, compare_lt_iff_lt]

theorem compareIdentifier_eq_iff (i j : Identifier) :
    compareIdentifier (identifierKey i) (identifierKey j) = .eq ↔ i = j := by
  cases i <;> cases j <;>
    simp [compareIdentifier, identifierKey, Ordering.then_eq_eq]

theorem preLt_iff (is js : List Identifier) :
    (compare (if is = [] then 1 else 0 : ℕ) (if js = [] then 1 else 0)).then
        (compareList compareIdentifier (is.map identifierKey) (js.map identifierKey)) = .lt ↔
      Semver.PreLt is js := by
  rw [compareList_map, Ordering.then_eq_lt,
    Semver.compareLex_lt_iff compareIdentifier_eq_iff compareIdentifier_lt_iff]
  cases is with
  | nil =>
    have hnot : ¬Semver.PreLt [] js := by
      rintro ⟨⟩
      contradiction
    cases js <;> simp [hnot, compare_lt_iff_lt]
  | cons i is =>
    cases js with
    | nil => simpa [compare_lt_iff_lt] using Semver.PreLt.release i is
    | cons j js =>
      have hfields : Semver.PreLt (i :: is) (j :: js) ↔ List.Lex Identifier.Lt (i :: is) (j :: js) :=
        ⟨fun h => by cases h; assumption, .fields (List.cons_ne_nil i is)⟩
      simp [hfields]

/-- **Keys are compared as versions are**: one is below another exactly where the version precedes
the other. -/
theorem compareKey_lt_iff (v w : Version) :
    compareKey (precedenceKey v) (precedenceKey w) = .lt ↔ v.Precedes w := by
  have hnumbers : compareList compare (precedenceKey v).numbers (precedenceKey w).numbers =
      (compare v.major w.major).then ((compare v.minor w.minor).then (compare v.patch w.patch)) := by
    simp [precedenceKey, compareList]
  have hpre : ((compare (precedenceKey v).release (precedenceKey w).release).then
      (compareList compareIdentifier (precedenceKey v).pre (precedenceKey w).pre)) = .lt ↔
        Semver.PreLt v.pre w.pre := preLt_iff v.pre w.pre
  rw [compareKey, hnumbers, Ordering.then_eq_lt, hpre]
  simp only [Ordering.then_eq_lt, Ordering.then_eq_eq, compare_lt_iff_lt, compare_eq_iff_eq]
  constructor
  · rintro ((hmajor | ⟨hmajor, hminor | ⟨hminor, hpatch⟩⟩) | ⟨⟨hmajor, hminor, hpatch⟩, hlt⟩)
    · exact .major hmajor
    · exact .minor hmajor hminor
    · exact .patch hmajor hminor hpatch
    · exact .pre hmajor hminor hpatch hlt
  · rintro (hmajor | ⟨hmajor, hminor⟩ | ⟨hmajor, hminor, hpatch⟩ | ⟨hmajor, hminor, hpatch, hlt⟩)
    · exact .inl (.inl hmajor)
    · exact .inl (.inr ⟨hmajor, .inl hminor⟩)
    · exact .inl (.inr ⟨hmajor, .inr ⟨hminor, hpatch⟩⟩)
    · exact .inr ⟨⟨hmajor, hminor, hpatch⟩, hlt⟩

end Compare

/-! ### Comparing keys orders them -/

instance : Std.TransCmp compareIdentifier := by
  unfold compareIdentifier
  have hkind := Semver.transCmp_comap compare fun a : ℕ × ℕ × String => a.1
  have hnumber := Semver.transCmp_comap compare fun a : ℕ × ℕ × String => a.2.1
  have htext := Semver.transCmp_comap compare fun a : ℕ × ℕ × String => a.2.2
  exact inferInstanceAs <| Std.TransCmp (compareLex _ (compareLex _ _))

instance : Std.TransCmp compareKey := by
  unfold compareKey
  simp only [compareList_eq]
  have hnumbers := Semver.transCmp_comap (List.compareLex compare) SemverKey.numbers
  have hrelease := Semver.transCmp_comap compare SemverKey.release
  have hpre := Semver.transCmp_comap (List.compareLex compareIdentifier) SemverKey.pre
  exact inferInstanceAs <| Std.TransCmp (compareLex _ (compareLex _ _))

theorem compareKey_gt_iff (v w : Version) :
    compareKey (precedenceKey v) (precedenceKey w) = .gt ↔ w.Precedes v := by
  rw [Std.OrientedCmp.gt_iff_lt, compareKey_lt_iff]

instance : DecidableRel Version.Precedes := fun v w =>
  decidable_of_iff (compareKey (precedenceKey v) (precedenceKey w) = .lt) (compareKey_lt_iff v w)

/-! ### The releases that are offered -/

/-- The tag of a release; one that is not a text is no version. -/
def releaseTag (rel : Json) : String := ((rel.get? "tag_name").bind Json.str?).getD ""

/-- A release is flagged as a pre-release. -/
def isFlagged (rel : Json) : Bool := ((rel.get? "prerelease").getD .null).truthy

/-- **A release is to be offered**: it is no draft, its tag has a version, which precedes no one
that runs already, and it is no pre-release by its flag or its version, unless these are allowed. -/
def IsNewer (allowPrerelease : Bool) (cur : Version) (rel : Json) : Prop :=
  ((rel.get? "draft").getD .null).truthy = false ∧ ∃ v ∈ versionOf (releaseTag rel),
    (allowPrerelease ∨ isFlagged rel = false ∧ v.pre = []) ∧ cur.Precedes v

instance (allowPrerelease : Bool) (cur : Version) :
    DecidablePred (IsNewer allowPrerelease cur) := fun rel => by
  unfold IsNewer
  infer_instance

/-- What is told of a release. -/
def report (rel : Json) : Release :=
  let name := (rel.get? "name").getD .null
  { version := Text.dropMatches (· == 'v') (releaseTag rel)
    tag := releaseTag rel
    name := if name.truthy then name else .str (releaseTag rel)
    prerelease := isFlagged rel || (versionOf (releaseTag rel)).any fun v => v.pre ≠ []
    publishedAt := (rel.get? "published_at").getD .null
    url := (rel.get? "html_url").getD .null
    notes := String.ofList ((((rel.get? "body").bind Json.str?).getD "").toList.take 4000) }

section Offered

variable {allowPrerelease : Bool} {cur : Version} {rel : Json} {tag : String} {v : Version}

theorem isPrerelease_eq (tag : String) :
    isPrerelease tag = (versionOf tag).any fun v => v.pre ≠ [] := by
  rw [isPrerelease, versionOf, Option.any_map]
  congr 1
  funext ⟨major, minor, patch, pre⟩
  by_cases hpre : pre = ""
  · simp [hpre]
  · simp [hpre, Text.split_ne_nil]

/-- What is offered of one release. -/
theorem eligible_eq (allowPrerelease : Bool) (cur : Version) (rel : Json) :
    eligible allowPrerelease (precedenceKey cur) rel =
      if IsNewer allowPrerelease cur rel then some (report rel) else none := by
  have htag : releaseTag rel = ((rel.get? "tag_name").bind Json.str?).getD "" := rfl
  have hflag : isFlagged rel = ((rel.get? "prerelease").getD .null).truthy := rfl
  unfold eligible
  simp only [← htag, ← hflag, semverKey_eq, isPrerelease_eq]
  cases hdraft : ((rel.get? "draft").getD .null).truthy with
  | true =>
    have hnot : ¬IsNewer allowPrerelease cur rel := fun h => by
      simp [IsNewer, hdraft] at h
    rw [if_pos rfl, if_neg hnot]
  | false =>
    cases hversion : versionOf (releaseTag rel) with
    | none => simp [IsNewer, hversion]
    | some v =>
      have hnewer : IsNewer allowPrerelease cur rel ↔
          ¬((isFlagged rel || decide (v.pre ≠ [])) && !allowPrerelease) = true ∧
            cur.Precedes v := by
        simp only [IsNewer, hdraft, hversion]
        cases allowPrerelease <;> simp
      simp only [Option.map_some, Option.any_some, ne_eq, compareKey_gt_iff, hnewer]
      by_cases hskip : ((isFlagged rel || decide (v.pre ≠ [])) && !allowPrerelease) = true
      · rw [if_neg Bool.false_ne_true, if_pos hskip, if_neg fun h => h.1 hskip]
      · rw [if_neg Bool.false_ne_true, if_neg hskip]
        by_cases hprec : cur.Precedes v
        · refine Eq.trans ?_ (if_pos ⟨hskip, hprec⟩).symm
          rw [if_neg (not_not.mpr hprec), report, hversion]
          rfl
        · rw [if_pos hprec, if_neg fun h => hprec h.2]

theorem filterMap_eligible (allowPrerelease : Bool) (cur : Version) (releases : List Json) :
    releases.filterMap (eligible allowPrerelease (precedenceKey cur)) =
      (releases.filter (IsNewer allowPrerelease cur)).map report := by
  induction releases with
  | nil => rfl
  | cons rel releases ih =>
    by_cases hnewer : IsNewer allowPrerelease cur rel
    · rw [List.filterMap_cons_some (by rw [eligible_eq, if_pos hnewer]),
        List.filter_cons_of_pos (by simpa using hnewer), List.map_cons, ih]
    · rw [List.filterMap_cons_none (by rw [eligible_eq, if_neg hnewer]),
        List.filter_cons_of_neg (by simpa using hnewer), ih]

/-- A digit is an ASCII digit or stands behind the ASCII characters, and is no white space. -/
theorem isDigit_or_of_digitValue {c : Char} (h : (digitValue c).isSome) :
    (c.isDigit ∨ 128 ≤ c.toNat) ∧ Text.isSpace c = false := by
  have hzeros : ∀ z ∈ decimalZeros, z = 48 ∨ 0xA0 < z ∧ z + 9 < 0x1680 ∨
      0x1680 < z ∧ z + 9 < 0x2000 ∨ 0x3000 < z := by decide
  rw [digitValue, Option.isSome_map, List.find?_isSome] at h
  obtain ⟨z, hz, hrange⟩ := h
  have hrange : z ≤ c.toNat ∧ c.toNat ≤ z + 9 := by simpa using hrange
  have hz := hzeros z hz
  constructor
  · by_cases hascii : 128 ≤ c.toNat
    · exact .inr hascii
    · have hlow : 48 ≤ c.toNat := by omega
      have hhigh : c.toNat ≤ 57 := by omega
      have hdigit : 48 ≤ c.val ∧ c.val ≤ 57 := ⟨hlow, hhigh⟩
      exact .inl (by simpa [Char.isDigit] using hdigit)
  · simp only [Text.isSpace, Text.isWhitespace, Bool.or_eq_false_iff, Bool.and_eq_false_iff,
      decide_eq_false_iff_not, beq_eq_false_iff_ne]
    omega

/-- The characters in which `parse_semver` reads a version, without the letter before them. -/
def semverChars (tag : String) : List Char :=
  (takeChar 'v' (Text.strip tag).toList).getD (Text.strip tag).toList

theorem versionOf_congr {s t : String} (h : semverChars s = semverChars t) :
    versionOf s = versionOf t := by
  have hparse : parseSemver s = parseSemver t := by
    rw [semverChars, semverChars] at h
    rw [parseSemver, parseSemver, h]
  rw [versionOf, versionOf, hparse]

/-- What is read starts with a digit. -/
theorem exists_semverChars (h : versionOf tag = some v) :
    ∃ d cs, semverChars tag = d :: cs ∧ (digitValue d).isSome := by
  obtain ⟨parts, hparse, -⟩ := Option.map_eq_some_iff.mp h
  obtain ⟨first, hfirst, -⟩ := Option.bind_eq_some_iff.mp hparse
  have hfirst : takeNumber (semverChars tag) = some first := hfirst
  cases hchars : semverChars tag with
  | nil =>
    rw [hchars] at hfirst
    cases hfirst
  | cons d cs =>
    refine ⟨d, cs, rfl, ?_⟩
    by_contra hd
    simp [hchars, takeNumber, hd] at hfirst

/-- A version is read in a tag without the letter before it, too. -/
theorem versionOf_dropMatches (h : versionOf tag = some v) :
    versionOf (Text.dropMatches (· == 'v') tag) = some v := by
  obtain ⟨d, cs, hchars, hd⟩ := exists_semverChars h
  have hspace := (isDigit_or_of_digitValue hd).2
  have hv : d ≠ 'v' := fun heq => by
    subst heq
    revert hd
    decide
  rw [← h]
  cases htag : tag.toList with
  | nil => rw [Text.dropMatches, htag, List.dropWhile_nil, ← htag, String.ofList_toList]
  | cons c t =>
    rw [Text.dropMatches, htag]
    by_cases hc : c = 'v'
    · subst hc
      -- Behind the letter stands a digit, so nothing else is dropped or trimmed there.
      have hstrip : (Text.strip tag).toList = 'v' :: t.rdropWhile Text.isSpace := by
        rw [Text.strip, Text.trimMatches, String.toList_ofList, htag,
          List.dropWhile_cons_of_neg (by decide)]
        exact Text.rdropWhile_append_cons (s := []) (by decide)
      have hrest : t.rdropWhile Text.isSpace = d :: cs := by
        rw [← hchars, semverChars, hstrip]
        rfl
      obtain ⟨t', rfl⟩ : ∃ t', t = d :: t' := by
        obtain ⟨t', ht'⟩ := List.rdropWhile_prefix Text.isSpace t
        exact ⟨cs ++ t', by rw [← ht', hrest, List.cons_append]⟩
      rw [List.dropWhile_cons_of_pos (by decide), List.dropWhile_cons_of_neg (by simpa using hv)]
      apply versionOf_congr
      rw [hchars, semverChars, Text.strip, Text.trimMatches, String.toList_ofList,
        String.toList_ofList, List.dropWhile_cons_of_neg (by simp [hspace]), hrest]
      simp [takeChar, hv]
    · rw [List.dropWhile_cons_of_neg (by simpa using hc), ← htag, String.ofList_toList]

end Offered

/-! ### The text of a version -/

section VersionText

variable {c : Char} {n : ℕ} {p : Char → Bool} {s t : List Char} {ids : List String}

theorem takeWhile_append_stop (hs : ∀ c ∈ s, p c = true) (ht : ∀ c ∈ t.head?, p c = false) :
    (s ++ t).takeWhile p = s ∧ (s ++ t).dropWhile p = t := by
  rw [List.takeWhile_append_of_pos hs, List.dropWhile_append_of_pos hs]
  cases t with
  | nil => simp
  | cons c t =>
    have hc : p c = false := ht c rfl
    simp [hc]

theorem digitValue_of_isDigit (h : c.isDigit) : digitValue c = some (c.toNat - 48) := by
  have hdigit : 48 ≤ c.val ∧ c.val ≤ 57 := by simpa [Char.isDigit] using h
  have hlow : 48 ≤ c.toNat := hdigit.1
  have hhigh : c.toNat ≤ 57 := hdigit.2
  simp [digitValue, decimalZeros, hlow, hhigh]

theorem isDigit_of_mem_toDigits (h : c ∈ Nat.toDigits 10 n) : c.isDigit :=
  Nat.isDigit_of_mem_toDigits (by decide) (by decide) h

theorem foldl_digitValue (n : ℕ) :
    (Nat.toDigits 10 n).foldl (fun n c => 10 * n + (digitValue c).getD 0) 0 = n := by
  have hfold : (Nat.toDigits 10 n).foldl (fun n c => 10 * n + (digitValue c).getD 0) 0 =
      (Nat.toDigits 10 n).foldl (fun n c => 10 * n + (c.toNat - '0'.toNat)) 0 := by
    refine List.foldl_ext _ _ _ fun m c hc => ?_
    rw [digitValue_of_isDigit (isDigit_of_mem_toDigits hc)]
    rfl
  rw [hfold, ← Nat.ofDigitChars_eq_foldl, Nat.ofDigitChars_ten_toDigits]

/-- A number is read up to its last digit. -/
theorem takeNumber_toDigits (n : ℕ) (ht : ∀ c ∈ t.head?, digitValue c = none) :
    takeNumber (Nat.toDigits 10 n ++ t) = some (n, t) := by
  have hdigits : ∀ c ∈ Nat.toDigits 10 n, (digitValue c).isSome = true := fun c hc => by
    rw [digitValue_of_isDigit (isDigit_of_mem_toDigits hc)]
    rfl
  have hstop : ∀ c ∈ t.head?, (digitValue c).isSome = false := fun c hc => by
    rw [ht c hc]
    rfl
  obtain ⟨htake, hdrop⟩ := takeWhile_append_stop hdigits hstop
  rw [takeNumber, htake, hdrop, foldl_digitValue, if_neg (by simp [Nat.toDigits_ne_nil])]

theorem dots_ne_empty (hne : ids ≠ []) (hids : ∀ s ∈ ids, Semver.IsIdentifier s) :
    ".".intercalate ids ≠ "" := by
  cases ids with
  | nil => contradiction
  | cons s rest =>
    have hs : s ≠ "" := (hids s List.mem_cons_self).1
    cases rest with
    | nil => rwa [String.intercalate_singleton]
    | cons s' rest => simp [String.intercalate_cons_cons]

theorem mem_dots (hc : c ∈ (".".intercalate ids).toList) : c = '.' ∨ ∃ s ∈ ids, c ∈ s.toList := by
  induction ids with
  | nil => simp at hc
  | cons s rest ih =>
    cases rest with
    | nil =>
      rw [String.intercalate_singleton] at hc
      exact .inr ⟨s, List.mem_cons_self, hc⟩
    | cons s' rest =>
      rw [String.intercalate_cons_cons, String.toList_append, String.toList_append,
        List.mem_append, List.mem_append] at hc
      obtain (hc | hc) | hc := hc
      · exact .inr ⟨s, List.mem_cons_self, hc⟩
      · exact .inl (List.mem_singleton.mp hc)
      · exact (ih hc).imp_right fun ⟨s, hs, hc⟩ => ⟨s, List.mem_cons_of_mem _ hs, hc⟩

theorem isIdentifierChar_of_isAlphanum (h : c.isAlphanum) : isIdentifierChar c = true := by
  have hdigit : '0' ≤ c ∧ c ≤ '9' ↔ 48 ≤ c.toNat ∧ c.toNat ≤ 57 := Iff.rfl
  have hupper : 'A' ≤ c ∧ c ≤ 'Z' ↔ 65 ≤ c.toNat ∧ c.toNat ≤ 90 := Iff.rfl
  have hlower : 'a' ≤ c ∧ c ≤ 'z' ↔ 97 ≤ c.toNat ∧ c.toNat ≤ 122 := Iff.rfl
  simp only [isIdentifierChar, Bool.or_eq_true, Bool.and_eq_true, decide_eq_true_eq, hdigit, hupper,
    hlower]
  exact .inl (.inl (or_assoc.mpr (Text.toNat_of_isAlphanum h)))

/-- The characters of identifiers are no white space, and those that a group of identifiers has. -/
theorem isIdentifierChar_of_mem (hids : ∀ s ∈ ids, Semver.IsIdentifier s)
    (hc : c ∈ (".".intercalate ids).toList) :
    isIdentifierChar c = true ∧ Text.isSpace c = false := by
  obtain rfl | ⟨s, hs, hc⟩ := mem_dots hc
  · decide
  · obtain halnum | rfl := (hids s hs).2 c hc
    · exact ⟨isIdentifierChar_of_isAlphanum halnum, Text.isSpace_of_isAlphanum halnum⟩
    · decide

/-- A group of identifiers is read up to its last one. -/
theorem takeIdentifiers_group (sign : Char) (hids : ∀ s ∈ ids, Semver.IsIdentifier s)
    (ht : ∀ c ∈ t.head?, isIdentifierChar c = false ∧ c ≠ sign) :
    takeIdentifiers sign ((Semver.group (String.ofList [sign]) ids).toList ++ t) =
      some (".".intercalate ids, t) := by
  by_cases hnil : ids = []
  · subst hnil
    cases t with
    | nil => rfl
    | cons c t =>
      have hc : c ≠ sign := (ht c rfl).2
      simp [takeIdentifiers, Semver.group, takeChar, hc]
  · obtain ⟨htake, hdrop⟩ := takeWhile_append_stop
      (fun c hc => (isIdentifierChar_of_mem hids hc).1) fun c hc => (ht c hc).1
    have hgroup : (Semver.group (String.ofList [sign]) ids).toList ++ t =
        sign :: ((".".intercalate ids).toList ++ t) := by
      simp [Semver.group, hnil]
    have hne : (".".intercalate ids).toList.isEmpty = false :=
      List.isEmpty_eq_false_iff.mpr fun heq =>
        dots_ne_empty hnil hids (String.toList_eq_nil_iff.mp heq)
    rw [hgroup, takeIdentifiers, takeChar, if_pos rfl]
    simp only [htake, hdrop, hne, String.ofList_toList]
    rfl

theorem mem_group {sign : String} (hc : c ∈ (Semver.group sign ids).toList) :
    c ∈ sign.toList ∨ c ∈ (".".intercalate ids).toList := by
  rw [Semver.group] at hc
  split_ifs at hc
  · simp at hc
  · rwa [String.toList_append, List.mem_append] at hc

end VersionText

section OfVersion

variable {v : Version}

/-- What the grammar allows is an identifier as a text. -/
theorem isIdentifier_text (hv : v.Valid) {i : Identifier} (hi : i ∈ v.pre) :
    Semver.IsIdentifier i.text := by
  cases i with
  | numeric n =>
    refine ⟨fun heq => Nat.toDigits_ne_nil (b := 10) (n := n) ?_, fun c hc => .inl ?_⟩
    · simpa [Identifier.text] using congrArg String.toList heq
    · have hc : c ∈ Nat.toDigits 10 n := by simpa [Identifier.text] using hc
      have hdigit : c.isDigit = true := isDigit_of_mem_toDigits hc
      rw [Char.isAlphanum, hdigit, Bool.or_true]
  | alphanumeric s => exact (hv.pre s hi).1

theorem isIdentifier_of_mem (hv : v.Valid) : ∀ s ∈ v.pre.map Identifier.text,
    Semver.IsIdentifier s := by
  intro s hs
  obtain ⟨i, hi, rfl⟩ := List.mem_map.mp hs
  exact isIdentifier_text hv hi

/-- An identifier is read as it was meant. -/
theorem identifierOf_text (hv : v.Valid) {i : Identifier} (hi : i ∈ v.pre) :
    identifierOf i.text = i := by
  have hident := isIdentifier_text hv hi
  cases i with
  | numeric n =>
    have hlist : (Identifier.numeric n).text.toList = Nat.toDigits 10 n := by
      simp [Identifier.text]
    have hall : (Nat.toDigits 10 n).all (fun c => (digitValue c).isSome) = true := by
      rw [List.all_eq_true]
      intro c hc
      rw [digitValue_of_isDigit (isDigit_of_mem_toDigits hc)]
      rfl
    rw [identifierOf, hlist, hall, foldl_digitValue, decide_eq_true hident.1]
    rfl
  | alphanumeric s =>
    obtain ⟨c, hc, hdigit⟩ := (hv.pre s hi).2
    have hnone : ¬(digitValue c).isSome := by
      intro hsome
      obtain hd | hascii := (isDigit_or_of_digitValue hsome).1
      · exact hdigit hd
      · obtain halnum | rfl := hident.2 c hc
        · have hrange := Text.toNat_of_isAlphanum halnum
          omega
        · exact absurd hascii (by decide)
    have hall : s.toList.all (fun c => (digitValue c).isSome) = false := by
      rw [List.all_eq_false]
      exact ⟨c, hc, hnone⟩
    rw [identifierOf, Identifier.text, hall, Bool.and_false]
    rfl

theorem toList_text (v : Version) :
    v.text.toList = Nat.toDigits 10 v.major ++ '.' :: (Nat.toDigits 10 v.minor ++
      '.' :: (Nat.toDigits 10 v.patch ++ ((Semver.group "-" (v.pre.map Identifier.text)).toList ++
        ((Semver.group "+" v.build).toList ++ [])))) := by
  simp [Version.text]

theorem takeChar_self (c : Char) (cs : List Char) : takeChar c (c :: cs) = some cs := if_pos rfl

theorem parseSemver_eq (tag : String) : parseSemver tag =
    (takeNumber (semverChars tag)).bind fun (major, cs) => (takeChar '.' cs).bind fun cs =>
      (takeNumber cs).bind fun (minor, cs) => (takeChar '.' cs).bind fun cs =>
        (takeNumber cs).bind fun (patch, cs) => (takeIdentifiers '-' cs).bind fun (pre, cs) =>
          (takeIdentifiers '+' cs).bind fun (_, cs) =>
            if cs.isEmpty then some (major, minor, patch, pre) else none := rfl

/-- The first character behind the three numbers, if there is one. -/
theorem head?_group {sign c : Char} {ids : List String} {t : List Char}
    (hc : c ∈ ((Semver.group (String.ofList [sign]) ids).toList ++ t).head?) :
    c = sign ∨ c ∈ t.head? := by
  rw [Semver.group] at hc
  split_ifs at hc
  · exact .inr (by simpa using hc)
  · exact .inl (by simpa using hc.symm)

/-- A version is read in its own characters. -/
theorem versionOf_of_semverChars (hv : v.Valid) {tag : String}
    (htag : semverChars tag = v.text.toList) : versionOf tag = some { v with build := [] } := by
  have hids := isIdentifier_of_mem hv
  have hdot (t : List Char) : ∀ c ∈ ('.' :: t).head?, digitValue c = none := by
    rintro c ⟨⟩
    decide
  have hbuild : ∀ c ∈ ((Semver.group "+" v.build).toList ++ []).head?, c = '+' := fun c hc =>
    (head?_group hc).resolve_right (by simp)
  have hpre : ∀ c ∈ ((Semver.group "-" (v.pre.map Identifier.text)).toList ++
      ((Semver.group "+" v.build).toList ++ [])).head?, digitValue c = none := by
    intro c hc
    obtain rfl | hc := head?_group hc
    · decide
    · obtain rfl := hbuild c hc
      decide
  have hread : parseSemver tag =
      some (v.major, v.minor, v.patch, ".".intercalate (v.pre.map Identifier.text)) := by
    have htakePre := takeIdentifiers_group '-' hids fun c hc => by
      obtain rfl := hbuild c hc
      exact (by decide : isIdentifierChar '+' = false ∧ '+' ≠ '-')
    have htakeBuild : takeIdentifiers '+' ((Semver.group "+" v.build).toList ++ []) =
        some (".".intercalate v.build, []) := takeIdentifiers_group '+' hv.build (by simp)
    have hpreText : takeIdentifiers '-' ((Semver.group "-" (v.pre.map Identifier.text)).toList ++
        ((Semver.group "+" v.build).toList ++ [])) =
          some (".".intercalate (v.pre.map Identifier.text),
            (Semver.group "+" v.build).toList ++ []) := htakePre
    rw [parseSemver_eq, htag, toList_text]
    simp only [takeNumber_toDigits _ (hdot _), takeNumber_toDigits _ hpre, takeChar_self,
      Option.bind_some, hpreText, htakeBuild]
    rfl
  have hsplit : v.pre ≠ [] →
      Text.split '.' (".".intercalate (v.pre.map Identifier.text)) = v.pre.map Identifier.text := by
    intro hne
    have hdots : ∀ l ∈ (v.pre.map Identifier.text).map String.toList, '.' ∉ l := by
      intro l hl hmem
      obtain ⟨s, hs, rfl⟩ := List.mem_map.mp hl
      exact absurd ((hids s hs).2 '.' hmem) (by decide)
    have hjoin := List.splitOn_intercalate '.' hdots (by simpa using hne)
    rw [Text.split, String.toList_intercalate]
    refine (congrArg (List.map String.ofList) hjoin).trans ?_
    simp [Function.comp_def]
  have hpreIds : (v.pre.map Identifier.text).map identifierOf = v.pre := by
    rw [List.map_map]
    exact (List.map_congr_left fun i hi => identifierOf_text hv hi).trans (List.map_id _)
  rw [versionOf, hread, Option.map_some]
  by_cases hnil : v.pre = []
  · simp [hnil]
  · have hne := dots_ne_empty (by simpa using hnil) hids
    simp only [hne, if_false, hsplit hnil, hpreIds]

/-- The text of a version has no white space. -/
theorem isSpace_text (hv : v.Valid) : ∀ c ∈ v.text.toList, Text.isSpace c = false := by
  have hdigits {n : ℕ} {c : Char} (hc : c ∈ Nat.toDigits 10 n) : Text.isSpace c = false := by
    have hdigit : c.isDigit = true := isDigit_of_mem_toDigits hc
    exact Text.isSpace_of_isAlphanum (by rw [Char.isAlphanum, hdigit, Bool.or_true])
  have hgroup {sign : Char} {ids : List String} {c : Char} (hsign : Text.isSpace sign = false)
      (hids : ∀ s ∈ ids, Semver.IsIdentifier s)
      (hc : c ∈ (Semver.group (String.ofList [sign]) ids).toList) : Text.isSpace c = false := by
    obtain hc | hc := mem_group hc
    · obtain rfl : c = sign := by simpa using hc
      exact hsign
    · exact (isIdentifierChar_of_mem hids hc).2
  intro c hc
  rw [toList_text] at hc
  simp only [List.mem_append, List.mem_cons, List.append_nil] at hc
  obtain hc | rfl | hc | rfl | hc | hc | hc := hc
  · exact hdigits hc
  · decide
  · exact hdigits hc
  · decide
  · exact hdigits hc
  · exact hgroup (by decide) (isIdentifier_of_mem hv) hc
  · exact hgroup (by decide) hv.build hc

end OfVersion

/-- **The text of a version** is read as that version, with the letter before it or without. -/
theorem versionOf_text {v : Version} (hv : v.Valid) :
    versionOf v.text = some { v with build := [] } ∧
      versionOf ("v" ++ v.text) = some { v with build := [] } := by
  obtain ⟨d, cs, htext, hd⟩ : ∃ d cs, v.text.toList = d :: cs ∧ d.isDigit := by
    obtain ⟨d, ds, hdigits⟩ := List.exists_cons_of_ne_nil (Nat.toDigits_ne_nil (b := 10) (n := v.major))
    exact ⟨d, _, by rw [toList_text, hdigits, List.cons_append],
      isDigit_of_mem_toDigits (hdigits ▸ List.mem_cons_self)⟩
  have hspace : ∀ c ∈ v.text.toList, Text.isSpace c = false := isSpace_text hv
  have hstrip : Text.strip v.text = v.text := Text.strip_of_forall hspace
  have hstripV : Text.strip ("v" ++ v.text) = "v" ++ v.text := by
    refine Text.strip_of_forall fun c hc => ?_
    rw [String.toList_append, List.mem_append] at hc
    obtain hc | hc := hc
    · obtain rfl : c = 'v' := by simpa using hc
      decide
    · exact hspace c hc
  constructor
  · refine versionOf_of_semverChars hv ?_
    have hne : d ≠ 'v' := fun heq => by
      subst heq
      exact absurd hd (by decide)
    rw [semverChars, hstrip, htext, takeChar, if_neg hne]
    rfl
  · refine versionOf_of_semverChars hv ?_
    rw [semverChars, hstripV, String.toList_append]
    rfl

/-! ### The order of the offered releases -/

section Sorted

variable {allowPrerelease : Bool} {cur : Version} {releases : List Json}

/-- The key that a release is sorted by. -/
def sortKey (r : Release) : SemverKey := (semverKey r.version).getD ⟨[], 0, []⟩

theorem sortKey_report {rel : Json} {v : Version} (h : versionOf (releaseTag rel) = some v) :
    semverKey (report rel).version = some (precedenceKey v) ∧ sortKey (report rel) = precedenceKey v := by
  have hkey : semverKey (report rel).version = some (precedenceKey v) := by
    rw [semverKey_eq, report, versionOf_dropMatches h]
    rfl
  exact ⟨hkey, by rw [sortKey, hkey, Option.getD_some]⟩

theorem exists_versionOf_of_mem {r : Release}
    (hr : r ∈ (releases.filter (IsNewer allowPrerelease cur)).map report) :
    ∃ v, versionOf r.tag = some v ∧ semverKey r.version = some (precedenceKey v) ∧
      sortKey r = precedenceKey v := by
  obtain ⟨rel, hrel, rfl⟩ := List.mem_map.mp hr
  obtain ⟨-, v, hv, -⟩ := of_decide_eq_true (List.mem_filter.mp hrel).2
  exact ⟨v, hv, sortKey_report hv⟩

/-- The offered releases are sorted by their keys. -/
theorem newerReleases_eq (releases : List Json) (cur : Version) (allowPrerelease : Bool) :
    newerReleases releases (precedenceKey cur) allowPrerelease =
      ((releases.filter (IsNewer allowPrerelease cur)).map report).mergeSort fun a b =>
        compareKey (sortKey a) (sortKey b) ≠ .lt := by
  rw [newerReleases, filterMap_eligible]
  refine (List.map_id _).symm.trans ?_
  refine (List.map_mergeSort fun a ha b hb => ?_).trans (by rw [List.map_id])
  obtain ⟨v, -, hkeyA, hsortA⟩ := exists_versionOf_of_mem ha
  obtain ⟨w, -, hkeyB, hsortB⟩ := exists_versionOf_of_mem hb
  simp only [hkeyA, hkeyB, id_eq, hsortA, hsortB]

/-- No offered release precedes one that stands behind it. -/
theorem pairwise_newerReleases :
    (newerReleases releases (precedenceKey cur) allowPrerelease).Pairwise fun a b =>
      ∀ v ∈ versionOf a.tag, ∀ w ∈ versionOf b.tag, ¬v.Precedes w := by
  rw [newerReleases_eq]
  have hge (o : Ordering) : o ≠ .lt ↔ o.isGE := by cases o <;> simp
  have htrans : ∀ a b c : Release, decide (compareKey (sortKey a) (sortKey b) ≠ .lt) →
      decide (compareKey (sortKey b) (sortKey c) ≠ .lt) →
        decide (compareKey (sortKey a) (sortKey c) ≠ .lt) := by
    intro a b c hab hbc
    rw [decide_eq_true_eq, hge] at hab hbc ⊢
    exact Std.TransCmp.isGE_trans hab hbc
  have htotal : ∀ a b : Release, decide (compareKey (sortKey a) (sortKey b) ≠ .lt) ||
      decide (compareKey (sortKey b) (sortKey a) ≠ .lt) := by
    intro a b
    rw [Bool.or_eq_true, decide_eq_true_eq, decide_eq_true_eq, or_iff_not_imp_left, not_not]
    intro hlt
    rw [Std.OrientedCmp.gt_of_lt hlt]
    exact Ordering.noConfusion
  have hsorted := List.pairwise_mergeSort htrans htotal
    ((releases.filter (IsNewer allowPrerelease cur)).map report)
  refine hsorted.imp_of_mem fun ha hb hle v hv w hw => ?_
  obtain ⟨v', hv', -, hsortA⟩ := exists_versionOf_of_mem (List.mem_mergeSort.mp ha)
  obtain ⟨w', hw', -, hsortB⟩ := exists_versionOf_of_mem (List.mem_mergeSort.mp hb)
  obtain rfl := Option.some.inj (hv'.symm.trans hv)
  obtain rfl := Option.some.inj (hw'.symm.trans hw)
  have hnot : compareKey (sortKey _) (sortKey _) ≠ .lt := of_decide_eq_true hle
  rw [hsortA, hsortB] at hnot
  exact fun hprec => hnot ((compareKey_lt_iff _ _).mpr hprec)

end Sorted

/-- **The releases that are offered.** The text of a version is read as that version, and the keys
of two texts are compared as the versions in them are. What is offered are the reports of the
releases to be offered, each as often as it is listed, and none precedes one behind it. -/
theorem newerReleases_spec {current : String} {cur : Version} (hcur : versionOf current = some cur)
    (releases : List Json) (allowPrerelease : Bool) :
    (∀ v : Version, v.Valid → versionOf v.text = some { v with build := [] } ∧
      versionOf ("v" ++ v.text) = some { v with build := [] }) ∧
    (∀ s t v w, versionOf s = some v → versionOf t = some w → ∃ k l, semverKey s = some k ∧
      semverKey t = some l ∧ (compareKey k l = .lt ↔ v.Precedes w) ∧
        (compareKey k l = .gt ↔ w.Precedes v)) ∧
    ∃ key, semverKey current = some key ∧
      (newerReleases releases key allowPrerelease).Perm
        ((releases.filter (IsNewer allowPrerelease cur)).map report) ∧
      (newerReleases releases key allowPrerelease).Pairwise fun a b =>
        ∀ v ∈ versionOf a.tag, ∀ w ∈ versionOf b.tag, ¬v.Precedes w := by
  have hkey {s : String} {v : Version} (h : versionOf s = some v) :
      semverKey s = some (precedenceKey v) := by
    rw [semverKey_eq, h, Option.map_some]
  refine ⟨fun v => versionOf_text, fun s t v w hs ht => ?_, precedenceKey cur, hkey hcur, ?_, ?_⟩
  · exact ⟨precedenceKey v, precedenceKey w, hkey hs, hkey ht, compareKey_lt_iff v w,
      compareKey_gt_iff v w⟩
  · rw [newerReleases_eq]
    exact List.mergeSort_perm _ _
  · exact pairwise_newerReleases

/-- A release with a tag, and whether it is flagged as a pre-release. -/
def sampleRelease (tag : String) (prerelease : Bool) : Json :=
  .obj [("tag_name", .str tag), ("prerelease", .bool prerelease), ("draft", .bool false)]

/-- Of an older release, one that is no version, a pre-release and a newer one, the newer one is
offered. -/
theorem newerReleases_sample : ∃ key r, semverKey "1.2.3" = some key ∧
    newerReleases [sampleRelease "v1.2.0" false, sampleRelease "latest" false,
      sampleRelease "v2.0.0" true, sampleRelease "v1.10.0" false] key false = [r] ∧
        r.tag = "v1.10.0" := by
  have hcur : versionOf "1.2.3" = some ⟨1, 2, 3, [], []⟩ := by decide
  obtain ⟨-, -, key, hkey, hperm, -⟩ := newerReleases_spec hcur
    [sampleRelease "v1.2.0" false, sampleRelease "latest" false, sampleRelease "v2.0.0" true,
      sampleRelease "v1.10.0" false] false
  have hnewer : [sampleRelease "v1.2.0" false, sampleRelease "latest" false,
      sampleRelease "v2.0.0" true, sampleRelease "v1.10.0" false].filter
        (IsNewer false ⟨1, 2, 3, [], []⟩) = [sampleRelease "v1.10.0" false] := by rfl
  rw [hnewer] at hperm
  exact ⟨key, _, hkey, List.perm_singleton.mp hperm, rfl⟩

end Nodeglow.Sidecar
