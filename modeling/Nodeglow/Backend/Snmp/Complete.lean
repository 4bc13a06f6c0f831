import Nodeglow.Backend.Snmp.MibText
import Nodeglow.Backend.Snmp.Resolve

/-!
# All definitions of a module are reported

The entries of a module are its definitions that are below a known root, each with its object
identifier, in whatever order the definitions stand and also where some parents form a cycle. This
needs a text in which the patterns match at the definitions only. A word before the name of a macro
in an `IMPORTS` clause is taken for a definition, and what follows up to the first assignment for
its clauses, so that the first definition is lost. Of a name with a hyphen, only the last part is
found.

## Main results

* `reports_of_clear`, `reports_of_clear_sample` — the definitions of a clear module are reported, in
  any order.
* `not_reports_sample` — a definition that is lost.

Source: `backend/services/snmp.py`, lines 313–424.
-/

namespace Nodeglow.Mib

/-! ### The definitions and their object identifiers -/

/-- **The object identifier of a name**: that of a known root, or that of the parent of its
definition with the number of the definition. -/
inductive NameOid (defs : List Definition) : List Char → String → Prop
  | root {name oid} (h : knownRoots.get (String.ofList name) = some oid) : NameOid defs name oid
  | step {d parentOid} (hd : d ∈ defs) (h : NameOid defs d.parent parentOid) :
      NameOid defs d.name (child parentOid d.number)

/-- The object identifier of a definition. -/
def DefinedOid (defs : List Definition) (d : Definition) (oid : String) : Prop :=
  ∃ parentOid, NameOid defs d.parent parentOid ∧ oid = child parentOid d.number

/-- The entry of a definition: an object is reported with its clauses. -/
def Definition.entry (chars : Characters) (d : Definition) (oid : String) : Entry :=
  if d.isObject then
    objectEntry chars oid (String.ofList d.name) (d.body.dropWhile Text.isSpace)
  else ⟨oid, String.ofList d.name, "", "", false⟩

/-- **The entries are the definitions** that have an object identifier, each of them once. -/
structure Reports (chars : Characters) (defs : List Definition) (entries : List Entry) : Prop where
  nodup : (entries.map Entry.name).Nodup
  mem_iff : ∀ e, e ∈ entries ↔ ∃ d ∈ defs, DefinedOid defs d e.oid ∧ e = d.entry chars e.oid

/-- The entries of a module. -/
def Module.entries (chars : Characters) (M : Module) : List Entry :=
  (parseMibText chars (String.ofList M.text)).2

/-- **A clear module**: the patterns match at the definitions only, no name has a hyphen or is the
name of a root, no number has more digits than are converted, and no two definitions have the same
object identifier. -/
structure Module.Clear (chars : Characters) (M : Module) : Prop where
  any : M.findsOnly chars (anyAssignRe chars) (fun _ => true) = true
  plain : M.findsOnly chars (plainRe chars) Definition.isPlain = true
  object : M.findsOnly chars (objectTypeRe chars) Definition.isObject = true
  noHyphen : ∀ d ∈ M.definitions, '-' ∉ d.name
  short : ∀ d ∈ M.definitions, d.digits.length ≤ 4300
  notRoot : ∀ d ∈ M.definitions, knownRoots.get (String.ofList d.name) = none
  apart : ∀ d ∈ M.definitions, ∀ d' ∈ M.definitions, ∀ oid,
    DefinedOid M.definitions d oid → DefinedOid M.definitions d' oid → d.name = d'.name

variable {chars : Characters} {M M' : Module} {defs defs' : List Definition} {d : Definition}
  {name parent oid : String} {num : ℕ} {tree : Tree} {p : Progress} {e : Entry}

theorem NameOid.mono (hsub : defs ⊆ defs') {name : List Char} (h : NameOid defs name oid) :
    NameOid defs' name oid := by
  induction h with
  | root h => exact .root h
  | step hd _ ih => exact .step (hsub hd) ih

/-- A name is that of a root or of a definition. -/
theorem NameOid.root_or_defined {name : List Char} (h : NameOid defs name oid) :
    knownRoots.get (String.ofList name) = some oid ∨
      ∃ d ∈ defs, d.name = name ∧ DefinedOid defs d oid := by
  cases h with
  | root h => exact .inl h
  | step hd h => exact .inr ⟨_, hd, rfl, _, h, rfl⟩

theorem DefinedOid.mono (hsub : defs ⊆ defs') (h : DefinedOid defs d oid) :
    DefinedOid defs' d oid := by
  obtain ⟨parentOid, hparent, rfl⟩ := h
  exact ⟨parentOid, hparent.mono hsub, rfl⟩

@[simp]
theorem Definition.name_entry (d : Definition) : (d.entry chars oid).name = String.ofList d.name := by
  rw [Definition.entry]
  split_ifs <;> rfl

theorem Module.eq_of_name_eq {d' : Definition} (hd : d ∈ M.definitions) (hd' : d' ∈ M.definitions)
    (hname : String.ofList d.name = String.ofList d'.name) : d = d' :=
  List.inj_on_of_nodup_map M.nodup hd hd' (String.ofList_injective hname)

/-! ### What the patterns find -/

/-- What is found of a definition. -/
def Definition.groups (d : Definition) : List (List Char) := [d.name, d.parent, d.digits]

/-- What is found of an object. -/
def Definition.objectGroups (d : Definition) : List (List Char) :=
  [d.name, d.body.dropWhile Text.isSpace, d.parent, d.digits]

/-- What is kept after the objects of a module. -/
def Module.objects (chars : Characters) (M : Module) : Progress :=
  ((M.definitions.filter Definition.isObject).map Definition.objectGroups).foldl (addObject chars)
    { known := resolveAll (oidTree chars M.text), seenOids := [], entries := [] }

namespace Module.Clear

variable (h : M.Clear chars)

include h

theorem isWord_name (hd : d ∈ M.definitions) : ∀ c ∈ d.name, isWord chars c = true := by
  intro c hc
  obtain ⟨⟨e, es, hname, he, hes⟩, -⟩ := d.isIdentifier_name
  have hhyphen := h.noHyphen d hd
  rw [hname] at hc hhyphen
  rcases List.mem_cons.mp hc with rfl | hc
  · exact isWord_of_isAlphanum (Text.isAlphanum_of_isLower he)
  · rcases hes c hc with hc | rfl
    · exact isWord_of_isAlphanum hc
    · exact absurd (List.mem_cons_of_mem _ hc) hhyphen

theorem findAll_any :
    (anyAssignRe chars).findAll 0 M.text = M.definitions.map Definition.groups := by
  have hall : (anyAssignRe chars).findAll 0 M.text =
      (M.definitions.filter fun _ => true).map Definition.groups :=
    findAll_text h.any fun d hd _ t hbody => firstMatch_any (h.isWord_name hd) hbody
  rwa [List.filter_true] at hall

theorem findAll_plain :
    (plainRe chars).findAll 0 M.text =
      (M.definitions.filter Definition.isPlain).map Definition.groups :=
  findAll_text h.plain fun _ hd hplain _ _ => firstMatch_plain (h.isWord_name hd) hplain

theorem findAll_object :
    (objectTypeRe chars).findAll 0 M.text =
      (M.definitions.filter Definition.isObject).map Definition.objectGroups :=
  findAll_text h.object fun _ hd hobject _ hbody =>
    firstMatch_object (h.isWord_name hd) hobject hbody

theorem pyInt_digits (hd : d ∈ M.definitions) : pyInt d.digits = some d.number := by
  rw [pyInt, if_pos (h.short d hd), Definition.digits, Text.decimalInt_toDigits]

end Module.Clear

/-! ### The tree of a module -/

/-- What a definition puts into the tree. -/
def Definition.item (d : Definition) : String × String × ℕ :=
  (String.ofList d.name, String.ofList d.parent, d.number)

theorem foldl_addAssignment (hnum : ∀ d ∈ defs, pyInt d.digits = some d.number) :
    (defs.map Definition.groups).foldl addAssignment tree =
      (defs.map Definition.item).foldl (fun t e => t.set e.1 e.2) tree := by
  induction defs generalizing tree with
  | nil => rfl
  | cons d defs ih =>
    obtain ⟨hd, hnum⟩ := List.forall_mem_cons.mp hnum
    have hset : addAssignment tree d.groups = tree.set d.item.1 d.item.2 := by
      rw [Definition.groups, addAssignment, hd]
      rfl
    rw [List.map_cons, List.map_cons, List.foldl_cons, List.foldl_cons, hset]
    exact ih hnum

/-- Names that are in the tree already. -/
theorem foldl_addPlain {found : List (List (List Char))}
    (hfound : ∀ g ∈ found, ∃ name rest v, g = name :: rest ∧
      tree.get (String.ofList name) = some v) : found.foldl addPlain tree = tree := by
  induction found with
  | nil => rfl
  | cons g found ih =>
    obtain ⟨⟨name, rest, v, rfl, hget⟩, hall⟩ := List.forall_mem_cons.mp hfound
    have hkeeps : addPlain tree (name :: rest) = tree := by
      rw [addPlain, List.head?_cons, Option.bind_some, hget]
      rfl
    rw [List.foldl_cons, hkeeps]
    exact ih hall

namespace Module.Clear

variable (h : M.Clear chars)

include h

/-- **The tree** has the definitions. -/
theorem get_oidTree : (oidTree chars M.text).get name = some (parent, num) ↔
    ∃ d ∈ M.definitions, d.item = (name, parent, num) := by
  have hnodup : ((M.definitions.map Definition.item).map Prod.fst).Nodup := by
    have hnames := M.nodup.map fun _ _ => String.ofList_injective
    rwa [List.map_map] at hnames ⊢
  have htree {name : String} {v : String × ℕ} :
      ((M.definitions.map Definition.groups).foldl addAssignment .empty).get name = some v ↔
        ∃ d ∈ M.definitions, d.item = (name, v) := by
    rw [foldl_addAssignment fun d hd => h.pyInt_digits hd, OrderedDict.get_foldl_set hnodup,
      List.mem_map]
    exact or_iff_left fun hempty => nomatch hempty.2
  rw [oidTree, h.findAll_any, h.findAll_plain, foldl_addPlain, htree]
  intro g hg
  obtain ⟨d, hd, rfl⟩ := List.mem_map.mp hg
  exact ⟨d.name, _, _, rfl, htree.mpr ⟨d, (List.mem_filter.mp hd).1, rfl⟩⟩

theorem nameOid_of_hasOid {n : ℕ} (hoid : HasOid (oidTree chars M.text) n name oid) :
    NameOid M.definitions name.toList oid := by
  induction hoid with
  | root hroot => exact .root (by rwa [String.ofList_toList])
  | step _ htree _ ih =>
    obtain ⟨d, hd, hitem⟩ := h.get_oidTree.mp htree
    rw [Definition.item, Prod.mk.injEq, Prod.mk.injEq] at hitem
    obtain ⟨rfl, rfl, rfl⟩ := hitem
    rw [String.toList_ofList] at ih ⊢
    exact .step hd ih

theorem exists_hasOid {name : List Char} (hoid : NameOid M.definitions name oid) :
    ∃ n, HasOid (oidTree chars M.text) n (String.ofList name) oid := by
  induction hoid with
  | root hroot => exact ⟨0, .root hroot⟩
  | step hd _ ih =>
    obtain ⟨n, hn⟩ := ih
    exact ⟨n + 1, .step (h.notRoot _ hd) (h.get_oidTree.mpr ⟨_, hd, rfl⟩) hn⟩

/-- **A definition is known** with its object identifier. -/
theorem get_definition (hd : d ∈ M.definitions) :
    (resolveAll (oidTree chars M.text)).get (String.ofList d.name) = some oid ↔
      DefinedOid M.definitions d oid := by
  rw [get_resolveAll]
  constructor
  · rintro ⟨n, hoid⟩
    cases hoid with
    | root hroot =>
      rw [h.notRoot d hd] at hroot
      cases hroot
    | step _ htree hparent =>
      obtain ⟨d', hd', hitem⟩ := h.get_oidTree.mp htree
      rw [Definition.item, Prod.mk.injEq, Prod.mk.injEq] at hitem
      obtain ⟨hname, rfl, rfl⟩ := hitem
      obtain rfl := M.eq_of_name_eq hd' hd hname
      have hoid := h.nameOid_of_hasOid hparent
      rw [String.toList_ofList] at hoid
      exact ⟨_, hoid, rfl⟩
  · rintro ⟨parentOid, hparent, rfl⟩
    obtain ⟨n, hn⟩ := h.exists_hasOid hparent
    exact ⟨n + 1, .step (h.notRoot d hd) (h.get_oidTree.mpr ⟨d, hd, rfl⟩) hn⟩

/-- A name that is known is that of a root or of a definition. -/
theorem exists_definition (hget : (resolveAll (oidTree chars M.text)).get name = some oid)
    (hroot : knownRoots.get name = none) :
    ∃ d ∈ M.definitions, String.ofList d.name = name ∧ DefinedOid M.definitions d oid := by
  obtain ⟨n, hoid⟩ := get_resolveAll.mp hget
  cases hoid with
  | root hroot' =>
    rw [hroot] at hroot'
    cases hroot'
  | step _ htree _ =>
    obtain ⟨d, hd, hitem⟩ := h.get_oidTree.mp htree
    obtain rfl : String.ofList d.name = name := congrArg Prod.fst hitem
    exact ⟨d, hd, rfl, (h.get_definition hd).mp hget⟩

/-! ### The entries of a module -/

/-- **The objects** among the entries. -/
theorem foldl_addObject {ds : List Definition} (hds : ∀ d ∈ ds, d ∈ M.definitions)
    (hp : Collected (oidTree chars M.text) p) :
    let p' := (ds.map Definition.objectGroups).foldl (addObject chars) p
    Collected (oidTree chars M.text) p' ∧ p.seenOids ⊆ p'.seenOids ∧
      (∀ e ∈ p'.entries, e ∈ p.entries ∨ ∃ d ∈ ds,
        e = objectEntry chars e.oid (String.ofList d.name) (d.body.dropWhile Text.isSpace)) ∧
      ∀ d ∈ ds, ∀ oid, DefinedOid M.definitions d oid → oid ∈ p'.seenOids := by
  induction ds generalizing p with
  | nil => exact ⟨hp, fun _ h => h, fun _ he => .inl he, nofun⟩
  | cons d ds ih =>
    obtain ⟨hd, hds⟩ := List.forall_mem_cons.mp hds
    have hobject : Collected (oidTree chars M.text) (addObject chars p d.objectGroups) :=
      hp.addObject (h.pyInt_digits hd) (h.notRoot d hd) (h.get_oidTree.mpr ⟨d, hd, rfl⟩)
    obtain ⟨hcollected, hseen, hentries, hall⟩ := ih hds hobject
    refine ⟨hcollected, fun _ hoid => hseen (seenOids_subset_addObject _ _ hoid), fun e he => ?_,
      List.forall_mem_cons.mpr ⟨fun oid hoid => ?_, hall⟩⟩
    · rcases hentries e he with he | ⟨d', hd', he⟩
      · exact (mem_addObject he).imp_right fun he => ⟨d, List.mem_cons_self, he⟩
      · exact .inr ⟨d', List.mem_cons_of_mem _ hd', he⟩
    · obtain ⟨parentOid, hparent, rfl⟩ := hoid
      obtain ⟨n, hn⟩ := h.exists_hasOid hparent
      exact hseen (hp.mem_seenOids_addObject (h.pyInt_digits hd) (get_resolveAll.mpr ⟨n, hn⟩))

/-- Two names with one object identifier are those of one definition. -/
theorem name_eq_name (name name' oid : String)
    (hget : (resolveAll (oidTree chars M.text)).get name = some oid)
    (hroot : knownRoots.get name = none)
    (hget' : (resolveAll (oidTree chars M.text)).get name' = some oid)
    (hroot' : knownRoots.get name' = none) : name = name' := by
  obtain ⟨d, hd, rfl, hoid⟩ := h.exists_definition hget hroot
  obtain ⟨d', hd', rfl, hoid'⟩ := h.exists_definition hget' hroot'
  rw [h.apart d hd d' hd' oid hoid hoid']

theorem entries_eq : M.entries chars = ((M.objects chars).known.items.foldl
    (addKnown (oidTree chars M.text)) (M.objects chars)).entries := by
  rw [Module.entries, parseMibText, String.toList_ofList, h.findAll_object]
  rfl

/-- **The definitions of a clear module are reported.** -/
theorem reports : Reports chars M.definitions (M.entries chars) := by
  obtain ⟨hobjects, -, hentries, hseen⟩ :=
    h.foldl_addObject (fun d (hd : d ∈ M.definitions.filter Definition.isObject) =>
      (List.mem_filter.mp hd).1) (collected_start (oidTree chars M.text))
  change Collected _ (M.objects chars) at hobjects
  obtain ⟨hcollected, -, hall⟩ := hobjects.foldl_addKnown _
    (fun e he => hobjects.known_eq ▸ OrderedDict.mem_items.mp he) h.name_eq_name
  rw [← h.entries_eq] at hall
  have hform (e : Entry) (he : e ∈ M.entries chars) :
      ∃ d ∈ M.definitions, DefinedOid M.definitions d e.oid ∧ e = d.entry chars e.oid := by
    rw [h.entries_eq] at he
    obtain ⟨d, hd, hname, hoid⟩ :=
      h.exists_definition (hcollected.get_eq e he) (hcollected.root_eq e he)
    refine ⟨d, hd, hoid, ?_⟩
    rw [Definition.entry]
    rcases mem_foldl_addKnown _ he with hobject | ⟨hfresh, -, hknown⟩
    · obtain hnil | ⟨d', hd', hobject⟩ := hentries e hobject
      · cases hnil
      · obtain ⟨hmem, hisObject⟩ := List.mem_filter.mp hd'
        obtain rfl : d' = d := M.eq_of_name_eq hmem hd (by rw [hname, hobject]; rfl)
        rwa [if_pos hisObject]
    · have hnot : ¬d.isObject = true := fun hobject =>
        hfresh (hseen d (List.mem_filter.mpr ⟨hd, hobject⟩) _ hoid)
      rwa [if_neg hnot, hname]
  refine ⟨h.entries_eq ▸ hcollected.nodup, fun e => ⟨hform e, ?_⟩⟩
  rintro ⟨d, hd, hoid, he⟩
  have hknown := OrderedDict.mem_items.mpr ((h.get_definition hd).mpr hoid)
  rw [← hobjects.known_eq] at hknown
  obtain ⟨e', he', hname, hoid'⟩ := hall _ hknown (h.notRoot d hd)
  obtain ⟨d', hd', -, hentry⟩ := hform e' he'
  have hsame : String.ofList d'.name = String.ofList d.name := by
    rw [← Definition.name_entry, ← hentry, hname]
  obtain rfl := M.eq_of_name_eq hd' hd hsame
  have heq : e = e' := by
    rw [he, hentry, hoid']
  rwa [heq]

end Module.Clear

/-- Where no object is found, the names of the entries are in the tree. -/
theorem exists_get_of_mem (hobjects : (objectTypeRe chars).findAll 0 M.text = [])
    (he : e ∈ M.entries chars) : ∃ v, (oidTree chars M.text).get e.name = some v := by
  rw [Module.entries, parseMibText, String.toList_ofList, hobjects] at he
  rcases mem_foldl_addKnown _ he with hnil | ⟨-, hget, -⟩
  · cases hnil
  · exact hget

/-- **The definitions of a clear module are reported**, in any order. -/
theorem reports_of_clear (h : M.Clear chars) (h' : M'.Clear chars)
    (hperm : M.definitions.Perm M'.definitions) :
    Reports chars M.definitions (M.entries chars) ∧
      ∀ e, e ∈ M.entries chars ↔ e ∈ M'.entries chars := by
  refine ⟨h.reports, fun e => ?_⟩
  rw [h.reports.mem_iff, h'.reports.mem_iff]
  constructor
  · rintro ⟨d, hd, hoid, he⟩
    exact ⟨d, hperm.subset hd, hoid.mono hperm.subset, he⟩
  · rintro ⟨d, hd, hoid, he⟩
    exact ⟨d, hperm.symm.subset hd, hoid.mono hperm.symm.subset, he⟩

/-! ### A clear module, and one that is not -/

section Samples

/-- `str.isalnum` of ASCII characters. -/
def asciiCharacters : Characters where
  isAlnum c := c.toNat < 128 && c.isAlphanum
  isAlnum_ascii c h := by simp [h]
  isAlnum_space c h := by
    have halnum : c.isAlphanum = false := eq_false_of_ne_true fun halnum => by
      rw [Text.isSpace_of_isAlphanum halnum] at h
      cases h
    rw [halnum, Bool.and_false]

/-- A definition with single spaces. -/
def sampleDefinition (name macroText body parent : String) (number : ℕ)
    (hname : IsIdentifier name.toList) (hmacroText : IsMacro macroText.toList)
    (hparent : IsIdentifier parent.toList) : Definition where
  name := name.toList
  sp := [' ']
  macroText := macroText.toList
  body := ' ' :: body.toList
  sp₁ := [' ']
  sp₂ := [' ']
  parent := parent.toList
  sp₃ := [' ']
  number := number
  sp₄ := [' ']
  gap := ['\n']
  isIdentifier_name := hname
  sp_ne := nofun
  spaces_sp := by decide
  isMacro := hmacroText
  spaces_head := forall_head?_cons rfl
  spaces_sp₁ := by decide
  spaces_sp₂ := by decide
  isIdentifier_parent := hparent
  sp₃_ne := nofun
  spaces_sp₃ := by decide
  spaces_sp₄ := by decide

/-- An identifier without hyphens. -/
theorem isIdentifier_of_all {c : Char} {s : List Char} (hc : c.isLower = true)
    (hs : s.all Char.isAlphanum = true) (hlast : (c :: s).getLast? ≠ some '-')
    (hchain : (c :: s).IsChain fun c d => ¬(c = '-' ∧ d = '-')) : IsIdentifier (c :: s) :=
  ⟨⟨c, s, rfl, hc, fun d hd => .inl (List.all_eq_true.mp hs d hd)⟩, hlast, hchain⟩

theorem isIdentifier_acme : IsIdentifier "acme".toList :=
  isIdentifier_of_all (s := "cme".toList) rfl rfl (by decide) (by decide)

theorem isIdentifier_load : IsIdentifier "load".toList :=
  isIdentifier_of_all (s := "oad".toList) rfl rfl (by decide) (by decide)

theorem isIdentifier_enterprises : IsIdentifier "enterprises".toList :=
  isIdentifier_of_all (s := "nterprises".toList) rfl rfl (by decide) (by decide)

/-- An object identifier below a root. -/
def acme : Definition :=
  sampleDefinition "acme" "OBJECT IDENTIFIER" "" "enterprises" 9 isIdentifier_acme
    (.inl ⟨[' '], nofun, by decide, rfl⟩) isIdentifier_enterprises

/-- An object below it, whose text names a macro. -/
def load : Definition :=
  sampleDefinition "load" "OBJECT-TYPE" "SYNTAX INTEGER DESCRIPTION \x22An OBJECT-TYPE.\x22 " "acme" 1
    isIdentifier_load (.inr ⟨"OBJECT-TYPE", by decide, rfl⟩) isIdentifier_acme

/-- The identity of a module. -/
def identity : Definition :=
  sampleDefinition "acme" "MODULE-IDENTITY" "DESCRIPTION \x22Acme.\x22 " "enterprises" 9
    isIdentifier_acme (.inr ⟨"MODULE-IDENTITY", by decide, rfl⟩) isIdentifier_enterprises

/-- A module of two definitions. -/
def sampleModule (definitions : List Definition) (hnodup : (definitions.map Definition.name).Nodup) :
    Module where
  before := "ACME-MIB DEFINITIONS ::= BEGIN\nIMPORTS enterprises FROM SNMPv2-SMI;\n".toList
  definitions := definitions
  after := "END\n".toList
  nodup := hnodup

theorem nameOid_enterprises (h : NameOid [acme, load] "enterprises".toList oid) :
    oid = "1.3.6.1.4.1" := by
  have hnone : ∀ d ∈ [acme, load], d.name ≠ "enterprises".toList := by decide
  rcases h.root_or_defined with h | ⟨d, hd, hname, -⟩
  · exact Option.some.inj (h.symm.trans rfl)
  · exact absurd hname (hnone d hd)

theorem definedOid_acme (h : DefinedOid [acme, load] acme oid) : oid = "1.3.6.1.4.1.9" := by
  obtain ⟨parentOid, hparent, rfl⟩ := h
  rw [nameOid_enterprises hparent]
  rfl

theorem nameOid_acme (h : NameOid [acme, load] "acme".toList oid) : oid = "1.3.6.1.4.1.9" := by
  rcases h.root_or_defined with h | ⟨d, hd, hname, hoid⟩
  · cases h
  · rcases List.mem_pair.mp hd with rfl | rfl
    · exact definedOid_acme hoid
    · exact absurd hname (by decide)

theorem definedOid_load (h : DefinedOid [acme, load] load oid) : oid = "1.3.6.1.4.1.9.1" := by
  obtain ⟨parentOid, hparent, rfl⟩ := h
  rw [nameOid_acme hparent]
  rfl

/-- The object identifiers of the two definitions are different. -/
theorem apart_sample : ∀ d ∈ [acme, load], ∀ d' ∈ [acme, load], ∀ oid,
    DefinedOid [acme, load] d oid → DefinedOid [acme, load] d' oid → d.name = d'.name := by
  have hne : ∀ oid, DefinedOid [acme, load] acme oid → ¬DefinedOid [acme, load] load oid := by
    intro oid h h'
    exact absurd ((definedOid_acme h).symm.trans (definedOid_load h')) (by decide)
  intro d hd d' hd' oid h h'
  rcases List.mem_pair.mp hd with rfl | rfl <;> rcases List.mem_pair.mp hd' with rfl | rfl
  · rfl
  · exact absurd h' (hne oid h)
  · exact absurd h (hne oid h')
  · rfl

/-- **A clear module**, and the other order of its definitions. -/
theorem clear_sample : (sampleModule [acme, load] (by decide)).Clear asciiCharacters where
  any := by decide +kernel
  plain := by decide +kernel
  object := by decide +kernel
  noHyphen := by decide
  short := by decide
  notRoot := by decide
  apart := apart_sample

theorem clear_swapped : (sampleModule [load, acme] (by decide)).Clear asciiCharacters where
  any := by decide +kernel
  plain := by decide +kernel
  object := by decide +kernel
  noHyphen := by decide
  short := by decide
  notRoot := by decide
  apart d hd d' hd' oid h h' :=
    have hsub : [load, acme] ⊆ [acme, load] := (List.Perm.swap acme load []).subset
    apart_sample d (hsub hd) d' (hsub hd') oid (h.mono hsub) (h'.mono hsub)

/-- Two definitions, of which the object comes first or last. -/
theorem reports_of_clear_sample :
    Reports asciiCharacters [acme, load]
        ((sampleModule [acme, load] (by decide)).entries asciiCharacters) ∧
      ∀ e, e ∈ (sampleModule [acme, load] (by decide)).entries asciiCharacters ↔
        e ∈ (sampleModule [load, acme] (by decide)).entries asciiCharacters :=
  reports_of_clear clear_sample clear_swapped (.swap load acme [])

/-- The identity of a module whose `IMPORTS` clause names its macro. -/
def importing : Module where
  before := ("ACME-MIB DEFINITIONS ::= BEGIN\nIMPORTS MODULE-IDENTITY, enterprises " ++
    "FROM SNMPv2-SMI;\n").toList
  definitions := [identity]
  after := "END\n".toList
  nodup := by decide

/-- What the parser finds there. -/
theorem oidTree_importing : (oidTree asciiCharacters importing.text).items =
    [("IMPORTS", "enterprises", 9)] := by
  decide +kernel

theorem findAll_importing :
    (objectTypeRe asciiCharacters).findAll 0 importing.text = [] := by
  decide +kernel

/-- **A definition that is lost**: the clause and the definition are taken for one assignment, with
the name `IMPORTS`. -/
theorem not_reports_sample :
    DefinedOid importing.definitions identity "1.3.6.1.4.1.9" ∧
      (∀ e ∈ importing.entries asciiCharacters, e.name ≠ "acme") ∧
      ¬Reports asciiCharacters importing.definitions (importing.entries asciiCharacters) := by
  have hdefined : DefinedOid importing.definitions identity "1.3.6.1.4.1.9" :=
    ⟨"1.3.6.1.4.1", .root rfl, rfl⟩
  have hlost : ∀ e ∈ importing.entries asciiCharacters, e.name ≠ "acme" := by
    intro e he hname
    obtain ⟨v, hv⟩ := exists_get_of_mem findAll_importing he
    have hmem := OrderedDict.mem_items.mpr hv
    rw [oidTree_importing, hname] at hmem
    have hkey : "acme" = "IMPORTS" := congrArg Prod.fst (List.mem_singleton.mp hmem)
    exact absurd hkey (by decide)
  refine ⟨hdefined, hlost, fun h => ?_⟩
  have hmem := (h.mem_iff (identity.entry asciiCharacters "1.3.6.1.4.1.9")).mpr
    ⟨identity, List.mem_cons_self, hdefined, rfl⟩
  exact hlost _ hmem (Definition.name_entry _)

end Samples

end Nodeglow.Mib
