import Mathlib.Data.List.Infix
import Nodeglow.Foundation.OrderedDict
import Nodeglow.Foundation.RegexSearch
import Nodeglow.Foundation.Text

/-!
# MIB modules

The parser of MIB modules: regular expressions find the definitions in the text, the numbers of
their object identifiers are put together from the parents, and the definitions of objects are
listed first.

What a letter or digit is for `\w` is given.

Source: `backend/services/snmp.py`, lines 252–424.
-/

namespace Nodeglow.Mib

/-- What is given: `str.isalnum`, of one character. -/
structure Characters where
  isAlnum : Char → Bool
  isAlnum_ascii : ∀ c : Char, c.toNat < 128 → isAlnum c = c.isAlphanum
  isAlnum_space : ∀ c, Text.isSpace c = true → isAlnum c = false

/-! ### Patterns -/

section Patterns

variable (chars : Characters)

/-- `\w`. -/
def isWord (c : Char) : Bool := chars.isAlnum c || c = '_'

/-- `\w+`. -/
def words : Regex := .chars (isWord chars) 1 none true

/-- `\s`, repeated. -/
def spaces (min : ℕ) : Regex := .chars Text.isSpace min none true

/-- `.*?` with `re.DOTALL`. -/
def anything : Regex := .chars (fun _ => true) 0 none false

/-- `\w[\w-]*`. -/
def parentRe : Regex :=
  .seq (.chars (isWord chars) 1 (some 1) true) (.chars (fun c => isWord chars c || c = '-') 0 none true)

/-- `::=\s*\{\s*(\w[\w-]*)\s+(\d+)\s*\}`. -/
def assignRe : Regex :=
  .concat [.lits "::=".toList, spaces 0, .lit '\x7b', spaces 0, .group (parentRe chars), spaces 1,
    .group (.chars Text.isDecimal 1 none true), spaces 0, .lit '\x7d']

/-- `OBJECT\s+IDENTIFIER`. -/
def objectIdentifierRe : Regex :=
  .concat [.lits "OBJECT".toList, spaces 1, .lits "IDENTIFIER".toList]

/-- The other macros. -/
def macroNames : List String :=
  ["MODULE-IDENTITY", "OBJECT-IDENTITY", "OBJECT-TYPE", "NOTIFICATION-TYPE", "NOTIFICATION-GROUP",
    "MODULE-COMPLIANCE", "OBJECT-GROUP", "AGENT-CAPABILITIES", "TEXTUAL-CONVENTION"]

/-- A macro. -/
def macroRe : Regex := .oneOf (objectIdentifierRe :: macroNames.map fun name => .lits name.toList)

/-- `_RE_ANY_ASSIGN`. -/
def anyAssignRe : Regex :=
  .concat [.group (words chars), spaces 1, macroRe, .notAhead (isWord chars), anything, assignRe chars]

/-- An object identifier without a macro. -/
def plainRe : Regex :=
  .concat [.group (words chars), spaces 1, .lits "OBJECT".toList, spaces 1, .lits "IDENTIFIER".toList,
    spaces 0, assignRe chars]

/-- `_RE_OBJECT_TYPE`. -/
def objectTypeRe : Regex :=
  .concat [.group (words chars), spaces 1, .lits "OBJECT-TYPE".toList, spaces 1, .group anything,
    assignRe chars]

/-- `_RE_MODULE`, at the start of a line. -/
def moduleRe : Regex :=
  .concat [.group (.chars (fun c => !Text.isSpace c) 1 none true), spaces 1,
    .lits "DEFINITIONS".toList, spaces 0, .lits "::=".toList, spaces 0, .lits "BEGIN".toList]

/-- `_RE_SYNTAX`. -/
def syntaxRe : Regex :=
  .concat [.lits "SYNTAX".toList, spaces 1,
    .group (.seq (.chars (fun c => isWord chars c || Text.isDecimal c) 1 none true)
      (.opt (.concat [spaces 0, .lit '(', .chars (fun c => c ≠ ')') 0 none true, .lit ')'])))]

/-- `_RE_DESCRIPTION`. -/
def descriptionRe : Regex :=
  .concat [.lits "DESCRIPTION".toList, spaces 0, .lit '\x22',
    .group (.star (.oneOf [.chars (fun c => c ≠ '\x22' ∧ c ≠ '\x5c') 1 (some 1) true,
      .seq (.lit '\x5c') (.chars (fun _ => true) 1 (some 1) true), .lits ['\x22', '\x22']])),
    .lit '\x22']

end Patterns

/-! ### Object identifiers -/

/-- `_KNOWN_ROOTS`. -/
def knownRoots : OrderedDict String String where
  items := [("iso", "1"), ("org", "1.3"), ("dod", "1.3.6"), ("internet", "1.3.6.1"),
    ("directory", "1.3.6.1.1"), ("mgmt", "1.3.6.1.2"), ("mib-2", "1.3.6.1.2.1"),
    ("system", "1.3.6.1.2.1.1"), ("interfaces", "1.3.6.1.2.1.2"), ("at", "1.3.6.1.2.1.3"),
    ("ip", "1.3.6.1.2.1.4"), ("icmp", "1.3.6.1.2.1.5"), ("tcp", "1.3.6.1.2.1.6"),
    ("udp", "1.3.6.1.2.1.7"), ("egp", "1.3.6.1.2.1.8"), ("transmission", "1.3.6.1.2.1.10"),
    ("snmp", "1.3.6.1.2.1.11"), ("host", "1.3.6.1.2.1.25"), ("hrSystem", "1.3.6.1.2.1.25.1"),
    ("hrStorage", "1.3.6.1.2.1.25.2"), ("hrDevice", "1.3.6.1.2.1.25.3"),
    ("ifMIB", "1.3.6.1.2.1.31"), ("experimental", "1.3.6.1.3"), ("private", "1.3.6.1.4"),
    ("enterprises", "1.3.6.1.4.1"), ("security", "1.3.6.1.5"), ("snmpV2", "1.3.6.1.6"),
    ("snmpDomains", "1.3.6.1.6.1"), ("snmpProxys", "1.3.6.1.6.2"), ("snmpModules", "1.3.6.1.6.3"),
    ("snmpMIB", "1.3.6.1.6.3.1"), ("zeroDotZero", "0.0")]
  nodup := by decide

/-- `oid_tree`: parents and numbers. -/
abbrev Tree := OrderedDict String (String × ℕ)

/-- `known`. -/
abbrev Known := OrderedDict String String

/-- `int` of decimal digits: `none` is the `ValueError` for more digits than Python converts. -/
def pyInt (digits : List Char) : Option ℕ :=
  if digits.length ≤ 4300 then some (Text.decimalInt digits) else none

/-- A name below a parent. -/
def child (parentOid : String) (num : ℕ) : String := parentOid ++ "." ++ toString num

/-- An assignment of any macro. -/
def addAssignment (tree : Tree) : List (List Char) → Tree
  | [name, parent, digits] =>
    match pyInt digits with
    | some num => tree.set (String.ofList name) (String.ofList parent, num)
    | none => tree
  | _ => tree

/-- An object identifier without a macro. -/
def addPlain (tree : Tree) (groups : List (List Char)) : Tree :=
  if (groups.head?.bind fun name => tree.get (String.ofList name)).isSome then tree
  else addAssignment tree groups

/-- The names that were not seen. -/
def unseen (tree : Tree) (seen : List String) : ℕ :=
  (tree.items.filter fun e => e.1 ∉ seen).length

theorem unseen_lt {tree : Tree} {seen : List String} {name : String} {v : String × ℕ}
    (h : tree.get name = some v) (hseen : name ∉ seen) :
    unseen tree (name :: seen) < unseen tree seen := by
  have hsub : (tree.items.filter fun e => e.1 ∉ name :: seen) =
      (tree.items.filter fun e => e.1 ∉ seen).filter fun e => e.1 ≠ name := by
    rw [List.filter_filter]
    refine List.filter_congr fun e _ => ?_
    simp only [List.mem_cons, not_or, Bool.decide_and]
  rw [unseen, hsub]
  refine List.length_filter_lt_length_iff_exists.mpr ⟨(name, v), ?_, by simp⟩
  exact List.mem_filter.mpr ⟨OrderedDict.mem_items.mpr h, by simpa using hseen⟩

/-- `resolve`. No object identifier is empty. -/
def resolve (tree : Tree) (known : Known) (seen : List String) (name : String) :
    Option String × Known :=
  match known.get name with
  | some oid => (some oid, known)
  | none =>
    match _h : tree.get name with
    | none => (none, known)
    | some (parent, num) =>
      if _hseen : name ∈ seen then (none, known)
      else
        match resolve tree known (name :: seen) parent with
        | (some parentOid, known) =>
          (some (child parentOid num), known.set name (child parentOid num))
        | (none, known) => (none, known)
termination_by unseen tree seen
decreasing_by exact unseen_lt _h _hseen

/-! ### The parser -/

/-- What is reported of a definition. -/
structure Entry where
  oid : String
  name : String
  syntaxName : String
  description : String
  isTable : Bool

/-- `text.replace('""', '"')`. -/
def undouble : List Char → List Char
  | '\x22' :: '\x22' :: s => '\x22' :: undouble s
  | c :: s => c :: undouble s
  | [] => []

/-- The entry of an object with a body. -/
def objectEntry (chars : Characters) (oid name : String) (body : List Char) : Entry :=
  let syntaxText := ((syntaxRe chars).search body).bind List.head?
  let description := (descriptionRe.search body).bind List.head?
  { oid := oid
    name := name
    syntaxName := (syntaxText.bind fun t => (Text.words (String.ofList t)).head?).getD ""
    description := (description.map fun t => String.ofList
      ((Text.strip (String.ofList (undouble t))).toList.take 500)).getD ""
    isTable := syntaxText.any fun t => "SEQUENCE".toList <:+: t }

/-- What is kept while the entries are collected. -/
structure Progress where
  known : Known
  seenOids : List String
  entries : List Entry

/-- A definition of an object. -/
def addObject (chars : Characters) (p : Progress) : List (List Char) → Progress
  | [name, body, parent, digits] =>
    match pyInt digits, p.known.get (String.ofList parent) with
    | some num, some parentOid =>
      let fullOid := child parentOid num
      let known := p.known.set (String.ofList name) fullOid
      if fullOid ∈ p.seenOids then { p with known }
      else { known, seenOids := fullOid :: p.seenOids,
             entries := p.entries ++ [objectEntry chars fullOid (String.ofList name) body] }
    | _, _ => p
  | _ => p

/-- A name that is known. -/
def addKnown (tree : Tree) (p : Progress) (e : String × String) : Progress :=
  if (knownRoots.get e.1).isSome ∨ e.2 ∈ p.seenOids then p
  else if (tree.get e.1).isNone then p
  else { p with seenOids := e.2 :: p.seenOids,
                entries := p.entries ++ [⟨e.2, e.1, "", "", false⟩] }

/-- The first line that declares a module. -/
def moduleName : Bool → List Char → Option (List Char)
  | true, s =>
    match moduleRe.firstMatch s with
    | some m => m.1.head?
    | none =>
      match s with
      | [] => none
      | c :: s => moduleName (c = '\n') s
  | false, [] => none
  | false, c :: s => moduleName (c = '\n') s

/-- The tree of the assignments in a text. -/
def oidTree (chars : Characters) (text : List Char) : Tree :=
  ((plainRe chars).findAll 0 text).foldl addPlain
    (((anyAssignRe chars).findAll 0 text).foldl addAssignment .empty)

/-- The names whose object identifiers are known. -/
def resolveAll (tree : Tree) : Known :=
  tree.items.foldl (fun known e => (resolve tree known [] e.1).2) knownRoots

/-- `parse_mib_text`. -/
def parseMibText (chars : Characters) (mibText : String) : String × List Entry :=
  let text := mibText.toList
  let tree := oidTree chars text
  let objects := ((objectTypeRe chars).findAll 0 text).foldl (addObject chars)
    { known := resolveAll tree, seenOids := [], entries := [] }
  let all := objects.known.items.foldl (addKnown tree) objects
  (((moduleName true text).map String.ofList).getD "UNKNOWN", all.entries)

end Nodeglow.Mib
