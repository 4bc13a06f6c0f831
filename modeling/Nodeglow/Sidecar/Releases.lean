import Nodeglow.Foundation.Json
import Nodeglow.Foundation.Text

/-!
# Releases and versions of the image-mode updater

The updater reads its version from `NODEGLOW_VERSION` in `.env` and compares it with the tags of
the published releases. This file embeds the reading and writing of dotenv files, the semantic
versions with their sort key, and the selection of the releases above the running one.

Source: `sidecar/image_update.py`.
-/

namespace Nodeglow.Sidecar

/-! ### Semantic versions -/

/-- The zeros of the decimal digits of Unicode 15, in order. Each is followed by the other nine. -/
def decimalZeros : List ℕ :=
  [0x30, 0x660, 0x6f0, 0x7c0, 0x966, 0x9e6, 0xa66, 0xae6, 0xb66, 0xbe6, 0xc66, 0xce6, 0xd66, 0xde6,
    0xe50, 0xed0, 0xf20, 0x1040, 0x1090, 0x17e0, 0x1810, 0x1946, 0x19d0, 0x1a80, 0x1a90, 0x1b50,
    0x1bb0, 0x1c40, 0x1c50, 0xa620, 0xa8d0, 0xa900, 0xa9d0, 0xa9f0, 0xaa50, 0xabf0, 0xff10,
    0x104a0, 0x10d30, 0x11066, 0x110f0, 0x11136, 0x111d0, 0x112f0, 0x11450, 0x114d0, 0x11650,
    0x116c0, 0x11730, 0x118e0, 0x11950, 0x11c50, 0x11d50, 0x11da0, 0x11f50, 0x16a60, 0x16ac0,
    0x16b50, 0x1d7ce, 0x1d7d8, 0x1d7e2, 0x1d7ec, 0x1d7f6, 0x1e140, 0x1e2f0, 0x1e4f0, 0x1e950,
    0x1fbf0]

/-- The value of a decimal digit: what `\d` matches and `int` reads. -/
def digitValue (c : Char) : Option ℕ :=
  (decimalZeros.find? fun z => z ≤ c.toNat && c.toNat ≤ z + 9).map (c.toNat - ·)

/-- The number at the start of the text, `(\d+)`, and what follows it. -/
def takeNumber (cs : List Char) : Option (ℕ × List Char) :=
  let digits := cs.takeWhile fun c => (digitValue c).isSome
  if digits.isEmpty then none
  else some (digits.foldl (fun n c => 10 * n + (digitValue c).getD 0) 0,
    cs.dropWhile fun c => (digitValue c).isSome)

/-- What follows a given character. -/
def takeChar (c : Char) : List Char → Option (List Char)
  | [] => none
  | d :: cs => if d = c then some cs else none

/-- The characters `[0-9A-Za-z.-]` of pre-release and build identifiers. -/
def isIdentifierChar (c : Char) : Bool :=
  ('0' ≤ c && c ≤ '9') || ('A' ≤ c && c ≤ 'Z') || ('a' ≤ c && c ≤ 'z') || c == '.' || c == '-'

/-- An optional group of identifier characters after a sign, and what follows it. -/
def takeIdentifiers (sign : Char) (cs : List Char) : Option (String × List Char) :=
  match takeChar sign cs with
  | none => some ("", cs)
  | some rest =>
    let ids := rest.takeWhile isIdentifierChar
    if ids.isEmpty then none else some (String.ofList ids, rest.dropWhile isIdentifierChar)

/-- `parse_semver`: major, minor and patch number and the pre-release identifiers. -/
def parseSemver (value : String) : Option (ℕ × ℕ × ℕ × String) := do
  let cs := (Text.strip value).toList
  let (major, cs) ← takeNumber ((takeChar 'v' cs).getD cs)
  let (minor, cs) ← takeNumber (← takeChar '.' cs)
  let (patch, cs) ← takeNumber (← takeChar '.' cs)
  let (pre, cs) ← takeIdentifiers '-' cs
  let (_, cs) ← takeIdentifiers '+' cs
  if cs.isEmpty then some (major, minor, patch, pre) else none

/-- The sort key of a version: the three numbers, `1` for a release and `0` for a pre-release, and
the key of the pre-release identifiers. -/
structure SemverKey where
  numbers : List ℕ
  release : ℕ
  pre : List (ℕ × ℕ × String)
deriving DecidableEq, Repr

/-- `_pre_key`: numeric identifiers by their value and below the alphanumeric ones. -/
def preKey (pre : String) : List (ℕ × ℕ × String) :=
  (Text.split '.' pre).map fun p =>
    if p ≠ "" && p.toList.all fun c => (digitValue c).isSome then
      (0, p.toList.foldl (fun n c => 10 * n + (digitValue c).getD 0) 0, "")
    else (1, 0, p)

/-- `semver_key`; no value where the source raises `ValueError`. -/
def semverKey (value : String) : Option SemverKey :=
  (parseSemver value).map fun (major, minor, patch, pre) =>
    ⟨[major, minor, patch], if pre = "" then 1 else 0, if pre = "" then [] else preKey pre⟩

/-- The order of lists in Python: by the first items that differ, a beginning below the whole. -/
def compareList {α : Type} (cmp : α → α → Ordering) : List α → List α → Ordering
  | [], [] => .eq
  | [], _ :: _ => .lt
  | _ :: _, [] => .gt
  | a :: as, b :: bs => (cmp a b).then (compareList cmp as bs)

/-- The order of the keys of two pre-release identifiers. -/
def compareIdentifier (a b : ℕ × ℕ × String) : Ordering :=
  (compare a.1 b.1).then ((compare a.2.1 b.2.1).then (compare a.2.2 b.2.2))

/-- The order of two keys, as Python compares the tuples. -/
def compareKey (a b : SemverKey) : Ordering :=
  (compareList compare a.numbers b.numbers).then
    ((compare a.release b.release).then (compareList compareIdentifier a.pre b.pre))

/-- `is_prerelease`. -/
def isPrerelease (value : String) : Bool :=
  (parseSemver value).any fun (_, _, _, pre) => pre ≠ ""

/-! ### Dotenv files -/

/-- The line without white space around it and without the word `export`. -/
def stripExport (line : String) : String :=
  let stripped := Text.strip line
  if "export ".isPrefixOf stripped then
    Text.dropMatches Text.isSpace (String.ofList (stripped.toList.drop 7))
  else stripped

/-- The text without a pair of equal quotes around it. -/
def unquote (value : String) : String :=
  match value.toList with
  | c :: cs =>
    if cs ≠ [] && cs.getLast? = some c && (c == '"' || c == '\'') then String.ofList cs.dropLast
    else value
  | [] => value

/-- `read_env_value` on the content of the file: of several assignments the last one counts. -/
def readEnvValue (content : Option String) (key : String) : String :=
  let step value line :=
    let stripped := stripExport line
    if (key ++ "=").isPrefixOf stripped then
      unquote (Text.strip (String.ofList (stripped.toList.drop (key.length + 1))))
    else value
  (content.elim [] Text.splitLines).foldl step ""

/-- The lines of a dotenv file with one assignment of `key`, in the place of the first one there
was; all other lines are kept. -/
def setEnvLines (key value : String) : Bool → List String → List String
  | done, [] => if done then [] else [key ++ "=" ++ value]
  | done, line :: lines =>
    if (key ++ "=").isPrefixOf (stripExport line) then
      if done then setEnvLines key value true lines
      else (key ++ "=" ++ value) :: setEnvLines key value true lines
    else line :: setEnvLines key value done lines

/-- What `write_env_value` writes for a file with the given content, if there was one. -/
def writeEnvContent (content : Option String) (key value : String) : String :=
  "\n".intercalate (setEnvLines key value false (content.elim [] Text.splitLines)) ++ "\n"

/-! ### Releases -/

/-- A release as `newer_releases` reports it. -/
structure Release where
  version : String
  tag : String
  name : Json
  prerelease : Bool
  publishedAt : Json
  url : Json
  notes : String

/-- The record of one published release, if it is eligible. A tag that is not a text is no
version, whatever its text would be. -/
def eligible (allowPrerelease : Bool) (current : SemverKey) (rel : Json) : Option Release :=
  if ((rel.get? "draft").getD .null).truthy then none
  else
    let tag := ((rel.get? "tag_name").bind Json.str?).getD ""
    let pre := ((rel.get? "prerelease").getD .null).truthy || isPrerelease tag
    match semverKey tag with
    | none => none
    | some key =>
      if pre && !allowPrerelease then none
      else if compareKey key current ≠ .gt then none
      else
        let name := (rel.get? "name").getD .null
        some {
          version := Text.dropMatches (· == 'v') tag
          tag := tag
          name := if name.truthy then name else .str tag
          prerelease := pre
          publishedAt := (rel.get? "published_at").getD .null
          url := (rel.get? "html_url").getD .null
          notes := String.ofList
            ((((rel.get? "body").bind Json.str?).getD "").toList.take 4000) }

/-- `newer_releases`: the eligible releases above the running one, newest first. -/
def newerReleases (releases : List Json) (current : SemverKey) (allowPrerelease : Bool) :
    List Release :=
  (releases.filterMap (eligible allowPrerelease current)).mergeSort fun a b =>
    match semverKey a.version, semverKey b.version with
    | some ka, some kb => compareKey ka kb ≠ .lt
    | _, _ => true

end Nodeglow.Sidecar
