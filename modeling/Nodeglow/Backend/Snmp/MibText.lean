import Nodeglow.Backend.Snmp.Mib

/-!
# The text of a MIB module

A module has a header, definitions and an end. A pattern takes a word before the name of a macro for
the start of a definition, and ends at the next assignment. It finds the definitions with their
names, parents and numbers, if it matches at no other place of the text, and if there is no
assignment in the clauses of a definition.

## Main results

* `firstMatch_any`, `firstMatch_plain`, `firstMatch_object` — a definition is found.
* `findAll_text` — the definitions are found.

Source: `backend/services/snmp.py`, lines 252–274.
-/

namespace Nodeglow.Mib

/-! ### Characters -/

section Characters

variable {chars : Characters} {c : Char}

theorem isWord_of_ascii (h : c.toNat < 128) :
    isWord chars c = (c.isAlphanum || decide (c = '_')) := by
  rw [isWord, chars.isAlnum_ascii c h]

theorem isWord_of_isAlphanum (h : c.isAlphanum = true) : isWord chars c = true := by
  have hrange := Text.toNat_of_isAlphanum h
  rw [isWord_of_ascii (by omega), h, Bool.true_or]

theorem isWord_of_isSpace (h : Text.isSpace c = true) : isWord chars c = false := by
  have hne : c ≠ '_' := by
    rintro rfl
    exact absurd h (by decide)
  rw [isWord, chars.isAlnum_space c h, decide_eq_false hne, Bool.false_or]

/-- White space. -/
def Spaces (s : List Char) : Prop := ∀ c ∈ s, Text.isSpace c = true

instance (s : List Char) : Decidable (Spaces s) :=
  decidable_of_iff (s.all Text.isSpace = true) List.all_eq_true

end Characters

/-! ### Definitions -/

/-- The name of a macro. -/
def IsMacro (k : List Char) : Prop :=
  (∃ sp, sp ≠ [] ∧ Spaces sp ∧ k = "OBJECT".toList ++ (sp ++ "IDENTIFIER".toList)) ∨
    ∃ name ∈ macroNames, k = name.toList

/-- An identifier: a letter in lower case, then letters, digits and hyphens. No hyphen is the last
character or follows another one. -/
def IsIdentifier (s : List Char) : Prop :=
  (∃ c cs, s = c :: cs ∧ c.isLower = true ∧ ∀ d ∈ cs, d.isAlphanum = true ∨ d = '-') ∧
    s.getLast? ≠ some '-' ∧ s.IsChain fun c d => ¬(c = '-' ∧ d = '-')

/-- The text `::= { parent number }`. -/
def assignment (sp₁ sp₂ parent sp₃ digits sp₄ : List Char) : List Char :=
  "::=".toList ++ (sp₁ ++ ('\x7b' :: (sp₂ ++ (parent ++ (sp₃ ++ (digits ++ (sp₄ ++ ['\x7d'])))))))

/-- **A definition**: its name, the macro, the clauses of the macro, and the parent and the number,
with white space, and what stands between it and the next one. -/
structure Definition where
  name : List Char
  sp : List Char
  macroText : List Char
  body : List Char
  sp₁ : List Char
  sp₂ : List Char
  parent : List Char
  sp₃ : List Char
  number : ℕ
  sp₄ : List Char
  gap : List Char
  isIdentifier_name : IsIdentifier name
  sp_ne : sp ≠ []
  spaces_sp : Spaces sp
  isMacro : IsMacro macroText
  spaces_head : ∀ c ∈ body.head?, Text.isSpace c = true
  spaces_sp₁ : Spaces sp₁
  spaces_sp₂ : Spaces sp₂
  isIdentifier_parent : IsIdentifier parent
  sp₃_ne : sp₃ ≠ []
  spaces_sp₃ : Spaces sp₃
  spaces_sp₄ : Spaces sp₄

namespace Definition

variable (d : Definition)

/-- The digits of the number. -/
def digits : List Char := Nat.toDigits 10 d.number

/-- The assignment of a definition. -/
def assigned : List Char := assignment d.sp₁ d.sp₂ d.parent d.sp₃ d.digits d.sp₄

/-- The text of a definition. -/
def core : List Char := d.name ++ (d.sp ++ (d.macroText ++ (d.body ++ d.assigned)))

/-- The macro `OBJECT-TYPE`. -/
def isObject : Bool := d.macroText = "OBJECT-TYPE".toList && d.body ≠ []

local instance lawfulBEq_text : LawfulBEq (List Char) := inferInstance

/-- `OBJECT IDENTIFIER`, without clauses. -/
def isPlain : Bool := d.macroText ∉ macroNames.map String.toList && d.body.all Text.isSpace

theorem core_ne_nil : d.core ≠ [] := by
  obtain ⟨⟨c, cs, hname, -⟩, -⟩ := d.isIdentifier_name
  rw [core, hname]
  exact nofun

end Definition

/-- **A module**: the text before the definitions, the definitions, which have different names, and
the text after them. -/
structure Module where
  before : List Char
  definitions : List Definition
  after : List Char
  nodup : (definitions.map Definition.name).Nodup

/-- The text from some definition on. -/
def restText (after : List Char) : List Definition → List Char
  | [] => after
  | d :: ds => d.core ++ (d.gap ++ restText after ds)

/-- The text of a module. -/
def Module.text (M : Module) : List Char := M.before ++ restText M.after M.definitions

/-! ### A definition is found -/

section Found

variable {chars : Characters} {a b k sp t : List Char} {d : Definition}

/-- A run of a class before a character that is not of the class. -/
theorem firstMatch_run_append {p : Char → Bool} {min : ℕ} (ha : ∀ c ∈ a, p c = true)
    (hmin : min ≤ a.length) (hb : ∀ c ∈ b.head?, p c = false) :
    (Regex.chars p min none true).firstMatch (a ++ b) = some ([], b) :=
  Regex.firstMatch_chars ha hmin nofun (.inr hb)

theorem firstMatch_spaces {min : ℕ} (hsp : Spaces sp) (hmin : min ≤ sp.length)
    (hb : ∀ c ∈ b.head?, Text.isSpace c = false) : (spaces min).firstMatch (sp ++ b) = some ([], b) :=
  firstMatch_run_append hsp hmin hb

theorem isSpace_of_isDecimal {c : Char} (h : Text.isDecimal c = true) : Text.isSpace c = false :=
  eq_false_of_ne_true fun hspace => by
    rw [Text.isDecimal_of_isSpace hspace] at h
    cases h

/-- A character of an identifier is not white space. -/
theorem IsIdentifier.isSpace_of_mem {s : List Char} (h : IsIdentifier s) {c : Char} (hc : c ∈ s) :
    Text.isSpace c = false := by
  obtain ⟨⟨e, es, rfl, he, hes⟩, -⟩ := h
  rcases List.mem_cons.mp hc with rfl | hc
  · exact Text.isSpace_of_isAlphanum (Text.isAlphanum_of_isLower he)
  · rcases hes c hc with hc | rfl
    · exact Text.isSpace_of_isAlphanum hc
    · decide

theorem IsIdentifier.ne_nil {s : List Char} (h : IsIdentifier s) : s ≠ [] := by
  obtain ⟨⟨c, cs, rfl, -⟩, -⟩ := h
  exact nofun

theorem Definition.isDecimal_digits (d : Definition) : ∀ c ∈ d.digits, Text.isDecimal c = true :=
  fun _ hc => Text.isDecimal_of_isDigit (Nat.isDigit_of_mem_toDigits (by decide) (by decide) hc)

theorem Definition.digits_ne_nil (d : Definition) : d.digits ≠ [] :=
  List.ne_nil_of_length_pos Nat.length_toDigits_pos

/-- What stands at the start of a text, if the first part of it is not empty. -/
theorem forall_head?_append {q : Char → Prop} (ha : a ≠ []) (h : ∀ c ∈ a, q c) :
    ∀ c ∈ (a ++ b).head?, q c := by
  obtain ⟨e, a, rfl⟩ := List.exists_cons_of_ne_nil ha
  intro c hc
  obtain rfl := Option.some.inj hc
  exact h _ List.mem_cons_self

theorem forall_head?_cons {q : Char → Prop} {c : Char} (h : q c) : ∀ e ∈ (c :: t).head?, q e :=
  fun _ he => Option.some.inj he ▸ h

/-- The parent of an assignment. -/
theorem firstMatch_parent (chars : Characters) (d : Definition)
    (hb : ∀ c ∈ b.head?, Text.isSpace c = true) :
    (parentRe chars).firstMatch (d.parent ++ b) = some ([], b) := by
  obtain ⟨⟨c, cs, hparent, hc, hcs⟩, -⟩ := d.isIdentifier_parent
  rw [hparent]
  have hfirst : (Regex.chars (isWord chars) 1 (some 1) true).firstMatch ([c] ++ (cs ++ b)) =
      some ([], cs ++ b) := by
    refine Regex.firstMatch_chars (fun e he => ?_) le_rfl (by simp) (.inl rfl)
    rw [List.mem_singleton.mp he]
    exact isWord_of_isAlphanum (Text.isAlphanum_of_isLower hc)
  have hrest : (Regex.chars (fun c => isWord chars c || c = '-') 0 none true).firstMatch (cs ++ b) =
      some ([], b) := by
    refine firstMatch_run_append (fun e he => ?_) (Nat.zero_le _) fun e he => ?_
    · rcases hcs e he with he | rfl
      · rw [isWord_of_isAlphanum he, Bool.true_or]
      · exact Bool.or_true _
    · have hne : e ≠ '-' := by
        rintro rfl
        exact absurd (hb _ he) (by decide)
      rw [isWord_of_isSpace (hb e he), decide_eq_false hne, Bool.false_or]
  exact Regex.firstMatch_seq hfirst hrest

/-- **The assignment** of a definition. -/
theorem firstMatch_assign (d : Definition) (t : List Char) :
    (assignRe chars).firstMatch (d.assigned ++ t) = some ([d.parent, d.digits], t) := by
  have hclose : (Regex.concat [.lit '\x7d']).firstMatch ('\x7d' :: t) = some ([], t) :=
    Regex.firstMatch_lit _ t
  have hsp₄ := Regex.firstMatch_concat_cons (List.cons_ne_nil _ _)
    (firstMatch_spaces (b := '\x7d' :: t) d.spaces_sp₄ (Nat.zero_le _)
      (forall_head?_cons (by decide))) hclose
  have hends : ∀ c ∈ (d.sp₄ ++ '\x7d' :: t).head?, Text.isDecimal c = false := by
    intro c hc
    cases hsp : d.sp₄ with
    | nil =>
      rw [hsp] at hc
      exact Option.some.inj hc ▸ by decide
    | cons e es =>
      rw [hsp] at hc
      have hspace : Text.isSpace e = true := d.spaces_sp₄ e (hsp ▸ List.mem_cons_self)
      exact Option.some.inj hc ▸ Text.isDecimal_of_isSpace hspace
  have hdigits := Regex.firstMatch_concat_group (List.cons_ne_nil _ _)
    (firstMatch_run_append d.isDecimal_digits (List.length_pos_of_ne_nil d.digits_ne_nil) hends) hsp₄
  have hsp₃ := Regex.firstMatch_concat_cons (List.cons_ne_nil _ _)
    (firstMatch_spaces d.spaces_sp₃ (List.length_pos_of_ne_nil d.sp₃_ne)
      (forall_head?_append d.digits_ne_nil fun c hc => isSpace_of_isDecimal (d.isDecimal_digits c hc)))
    hdigits
  have hparent := Regex.firstMatch_concat_group (List.cons_ne_nil _ _)
    (firstMatch_parent chars d (forall_head?_append d.sp₃_ne d.spaces_sp₃)) hsp₃
  have hsp₂ := Regex.firstMatch_concat_cons (List.cons_ne_nil _ _)
    (firstMatch_spaces d.spaces_sp₂ (Nat.zero_le _) (forall_head?_append d.isIdentifier_parent.ne_nil
      fun c hc => d.isIdentifier_parent.isSpace_of_mem hc)) hparent
  have hopen := Regex.firstMatch_concat_cons (List.cons_ne_nil _ _)
    (Regex.firstMatch_lit '\x7b' _) hsp₂
  have hsp₁ := Regex.firstMatch_concat_cons (List.cons_ne_nil _ _)
    (firstMatch_spaces d.spaces_sp₁ (Nat.zero_le _) (forall_head?_cons (by decide))) hopen
  have hall := Regex.firstMatch_concat_cons (List.cons_ne_nil _ _)
    (Regex.firstMatch_lits "::=".toList _) hsp₁
  rw [assignRe, Definition.assigned, assignment]
  simpa only [List.append_assoc, List.cons_append, List.nil_append] using hall

/-- The names of macros have no white space, and none of them is the start of another one. -/
theorem macroNames_spec : ∀ name ∈ macroNames, 7 ≤ name.toList.length ∧
    (∀ c ∈ name.toList, Text.isSpace c = false) ∧
      ∀ name' ∈ macroNames, name'.toList <+: name.toList → name' = name := by
  have hall : (macroNames.all fun name => decide (7 ≤ name.toList.length) &&
      (name.toList.all fun c => !Text.isSpace c) &&
        macroNames.all fun name' => !name'.toList.isPrefixOf name.toList || name' == name) = true := by
    decide +kernel
  intro name hname
  have hname := List.all_eq_true.mp hall name hname
  rw [Bool.and_eq_true, Bool.and_eq_true, decide_eq_true_eq] at hname
  refine ⟨hname.1.1, fun c hc => by simpa using List.all_eq_true.mp hname.1.2 c hc, ?_⟩
  intro name' hname' hpre
  have hother := List.all_eq_true.mp hname.2 name' hname'
  rw [List.isPrefixOf_iff_prefix.mpr hpre] at hother
  simpa using hother

theorem nodup_macroNames : macroNames.Nodup := by decide

theorem firstMatch_objectIdentifier (hne : sp ≠ []) (hsp : Spaces sp) (t : List Char) :
    objectIdentifierRe.firstMatch ("OBJECT".toList ++ (sp ++ ("IDENTIFIER".toList ++ t))) =
      some ([], t) := by
  have hlast : (Regex.concat [.lits "IDENTIFIER".toList]).firstMatch ("IDENTIFIER".toList ++ t) =
      some ([], t) := Regex.firstMatch_lits _ t
  have hspaces := Regex.firstMatch_concat_cons (List.cons_ne_nil _ _)
    (firstMatch_spaces hsp (List.length_pos_of_ne_nil hne)
      (forall_head?_append (by decide) (Text.forall_mem_of_all rfl))) hlast
  exact Regex.firstMatch_concat_cons (List.cons_ne_nil _ _) (Regex.firstMatch_lits _ _) hspaces

/-- Another macro is no `OBJECT IDENTIFIER`. -/
theorem objectIdentifier_eq_none {name : String} (hname : name ∈ macroNames) (t : List Char) :
    objectIdentifierRe.firstMatch (name.toList ++ t) = none := by
  refine Regex.firstMatch_eq_none fun a b hs hmatch => ?_
  simp only [objectIdentifierRe, Regex.matches_concat_cons (List.cons_ne_nil _ _),
    Regex.matches_concat_singleton, Regex.matches_lits] at hmatch
  obtain ⟨_, _, rfl, rfl, sp, _, rfl, hsp, rfl⟩ := hmatch
  obtain ⟨hsp, hlen⟩ := Regex.matches_run.mp hsp
  obtain ⟨c, sp, rfl⟩ := List.exists_cons_of_ne_nil (List.ne_nil_of_length_pos hlen)
  obtain ⟨hlength, hspaces, -⟩ := macroNames_spec name hname
  have hpre : "OBJECT".toList ++ [c] <+: name.toList := by
    refine List.prefix_of_prefix_length_le ⟨sp ++ ("IDENTIFIER".toList ++ b), ?_⟩
      (List.prefix_append _ t) hlength
    rw [hs]
    simp
  have hmem := hspaces c (hpre.subset (by simp))
  rw [hsp c List.mem_cons_self] at hmem
  cases hmem

/-- **The name of a macro.** -/
theorem firstMatch_macroName (hk : IsMacro k) (t : List Char) :
    macroRe.firstMatch (k ++ t) = some ([], t) := by
  rcases hk with ⟨sp, hne, hsp, rfl⟩ | ⟨name, hname, rfl⟩
  · rw [List.append_assoc, List.append_assoc]
    exact @Regex.firstMatch_oneOf _ _ _ [] _ nofun (firstMatch_objectIdentifier hne hsp t)
  · obtain ⟨names, names', hnames⟩ := List.append_of_mem hname
    have hkeyword : macroRe = .oneOf ((objectIdentifierRe :: names.map fun name => .lits name.toList) ++
        .lits name.toList :: names'.map fun name => .lits name.toList) := by
      rw [macroRe, hnames, List.map_append, List.map_cons]
      rfl
    rw [hkeyword]
    refine Regex.firstMatch_oneOf (fun r hr => ?_) (Regex.firstMatch_lits _ t)
    rcases List.mem_cons.mp hr with rfl | hr
    · exact objectIdentifier_eq_none hname t
    · obtain ⟨name', hname', rfl⟩ := List.mem_map.mp hr
      have hmem' : name' ∈ macroNames := hnames ▸ List.mem_append_left _ hname'
      refine Regex.firstMatch_eq_none fun a b hs hmatch => ?_
      obtain rfl := Regex.matches_lits.mp hmatch
      have hsame : name' = name := by
        rcases List.prefix_or_prefix_of_prefix ⟨b, hs.symm⟩ (List.prefix_append name.toList t)
          with hpre | hpre
        · exact (macroNames_spec name hname).2.2 name' hmem' hpre
        · exact ((macroNames_spec name' hmem').2.2 name hname hpre).symm
      have hnodup := nodup_macroNames
      rw [hnames, List.nodup_append] at hnodup
      exact hnodup.2.2 name' hname' name List.mem_cons_self hsame

/-- The text after the macro does not go on with a word. -/
theorem Definition.head_body (chars : Characters) (d : Definition) (t : List Char) :
    ∀ c ∈ (d.body ++ (d.assigned ++ t)).head?, isWord chars c = false := by
  intro c hc
  cases hbody : d.body with
  | nil =>
    rw [hbody] at hc
    obtain rfl : ':' = c := Option.some.inj hc
    exact isWord_of_ascii (by decide)
  | cons e es =>
    rw [hbody] at hc
    obtain rfl := Option.some.inj hc
    exact isWord_of_isSpace (d.spaces_head e (by rw [hbody]; rfl))

/-- The name of a macro starts with a letter. -/
theorem IsMacro.head (hk : IsMacro k) (t : List Char) :
    ∀ c ∈ (k ++ t).head?, Text.isSpace c = false := by
  rcases hk with ⟨sp, -, -, rfl⟩ | ⟨name, hname, rfl⟩
  · exact forall_head?_cons (by decide)
  · obtain ⟨hlength, hspace, -⟩ := macroNames_spec name hname
    exact forall_head?_append (List.ne_nil_of_length_pos (by omega)) hspace

/-- The name of a definition, and the white space after it. -/
theorem firstMatch_name {rs : List Regex} {m : List (List Char) × List Char} (hrs : rs ≠ [])
    (hname : ∀ c ∈ d.name, isWord chars c = true) (hb : ∀ c ∈ b.head?, Text.isSpace c = false)
    (h : (Regex.concat rs).firstMatch b = some m) :
    (Regex.concat (.group (words chars) :: spaces 1 :: rs)).firstMatch (d.name ++ (d.sp ++ b)) =
      some (d.name :: m.1, m.2) := by
  have hsp := Regex.firstMatch_concat_cons hrs
    (firstMatch_spaces d.spaces_sp (List.length_pos_of_ne_nil d.sp_ne) hb) h
  refine Regex.firstMatch_concat_group (List.cons_ne_nil _ _) ?_ hsp
  exact firstMatch_run_append hname (List.length_pos_of_ne_nil d.isIdentifier_name.ne_nil)
    (forall_head?_append d.sp_ne fun c hc => isWord_of_isSpace (d.spaces_sp c hc))

/-- **A definition** of any macro. -/
theorem firstMatch_any (hname : ∀ c ∈ d.name, isWord chars c = true)
    (hbody : Regex.quiet (assignRe chars) d.body (d.assigned ++ t) = true) :
    (anyAssignRe chars).firstMatch (d.core ++ t) = some ([d.name, d.parent, d.digits], t) := by
  have hassign := Regex.firstMatch_lazy (Regex.firstMatch_of_quiet hbody) (firstMatch_assign d t)
  have hend := Regex.firstMatch_concat_cons (List.cons_ne_nil anything [assignRe chars])
    (Regex.firstMatch_notAhead (d.head_body chars t)) hassign
  have hkeyword := Regex.firstMatch_concat_cons (List.cons_ne_nil _ _)
    (firstMatch_macroName d.isMacro (d.body ++ (d.assigned ++ t))) hend
  have hall := firstMatch_name (List.cons_ne_nil _ _) hname (d.isMacro.head _) hkeyword
  rw [anyAssignRe, Definition.core]
  simpa only [List.append_assoc] using hall

/-- **An object identifier** without a macro. -/
theorem firstMatch_plain (hname : ∀ c ∈ d.name, isWord chars c = true) (hplain : d.isPlain = true) :
    (plainRe chars).firstMatch (d.core ++ t) = some ([d.name, d.parent, d.digits], t) := by
  rw [Definition.isPlain, Bool.and_eq_true, decide_eq_true_eq, List.all_eq_true] at hplain
  obtain ⟨sp, hne, hsp, hkeyword⟩ : ∃ sp, sp ≠ [] ∧ Spaces sp ∧
      d.macroText = "OBJECT".toList ++ (sp ++ "IDENTIFIER".toList) := by
    rcases d.isMacro with h | ⟨name, hname, h⟩
    · exact h
    · exact absurd (List.mem_map.mpr ⟨name, hname, h.symm⟩) hplain.1
  have hassign : (Regex.concat [assignRe chars]).firstMatch (d.assigned ++ t) =
      some ([d.parent, d.digits], t) := firstMatch_assign d t
  have hbody := Regex.firstMatch_concat_cons (List.cons_ne_nil _ _)
    (firstMatch_spaces (b := d.assigned ++ t) hplain.2 (Nat.zero_le _)
      (forall_head?_cons (by decide))) hassign
  have hidentifier := Regex.firstMatch_concat_cons (List.cons_ne_nil _ _)
    (Regex.firstMatch_lits "IDENTIFIER".toList _) hbody
  have hspaces := Regex.firstMatch_concat_cons (List.cons_ne_nil _ _)
    (firstMatch_spaces hsp (List.length_pos_of_ne_nil hne)
      (forall_head?_append (by decide) (Text.forall_mem_of_all rfl))) hidentifier
  have hobject := Regex.firstMatch_concat_cons (List.cons_ne_nil _ _)
    (Regex.firstMatch_lits "OBJECT".toList _) hspaces
  have hall := firstMatch_name (List.cons_ne_nil _ _) hname
    (forall_head?_append (by decide) (Text.forall_mem_of_all rfl)) hobject
  rw [plainRe, Definition.core, hkeyword]
  simpa only [List.append_assoc] using hall

/-- The white space at the start of the clauses. -/
theorem firstMatch_clauses (hne : d.body ≠ []) :
    (spaces 1).firstMatch (d.body ++ (d.assigned ++ t)) =
      some ([], d.body.dropWhile Text.isSpace ++ (d.assigned ++ t)) := by
  have hsplit := List.takeWhile_append_dropWhile (p := Text.isSpace) (l := d.body)
  have hpos : 1 ≤ (d.body.takeWhile Text.isSpace).length := by
    obtain ⟨c, cs, hbody⟩ := List.exists_cons_of_ne_nil hne
    rw [hbody, List.takeWhile_cons, if_pos (d.spaces_head c (by rw [hbody]; rfl))]
    exact Nat.succ_pos _
  have hend : ∀ c ∈ (d.body.dropWhile Text.isSpace ++ (d.assigned ++ t)).head?,
      Text.isSpace c = false := by
    cases hdrop : d.body.dropWhile Text.isSpace with
    | nil => exact forall_head?_cons (by decide)
    | cons c cs =>
      refine forall_head?_cons (eq_false_of_ne_true ?_)
      have hhead := List.head?_dropWhile_not Text.isSpace d.body
      rw [hdrop] at hhead
      simpa using hhead
  calc (spaces 1).firstMatch (d.body ++ (d.assigned ++ t))
      = (spaces 1).firstMatch (d.body.takeWhile Text.isSpace ++
          (d.body.dropWhile Text.isSpace ++ (d.assigned ++ t))) := by
        rw [← List.append_assoc, ← List.append_assoc, hsplit, List.append_assoc]
    _ = _ := firstMatch_spaces (fun c hc => List.mem_takeWhile_imp hc) hpos hend

/-- **An object.** -/
theorem firstMatch_object (hname : ∀ c ∈ d.name, isWord chars c = true)
    (hobject : d.isObject = true)
    (hbody : Regex.quiet (assignRe chars) d.body (d.assigned ++ t) = true) :
    (objectTypeRe chars).firstMatch (d.core ++ t) =
      some ([d.name, d.body.dropWhile Text.isSpace, d.parent, d.digits], t) := by
  rw [Definition.isObject, Bool.and_eq_true, decide_eq_true_eq, decide_eq_true_eq] at hobject
  have hquiet := Regex.firstMatch_of_quiet hbody
  have hassign : (Regex.concat [.group anything, assignRe chars]).firstMatch
      (d.body.dropWhile Text.isSpace ++ (d.assigned ++ t)) =
      some ([d.body.dropWhile Text.isSpace, d.parent, d.digits], t) :=
    Regex.firstMatch_group_lazy
      (fun u hu hne => hquiet u (hu.trans (List.dropWhile_suffix Text.isSpace)) hne)
      (firstMatch_assign d t)
  have hspaces := Regex.firstMatch_concat_cons (List.cons_ne_nil _ _)
    (firstMatch_clauses (t := t) hobject.2) hassign
  have hkeyword := Regex.firstMatch_concat_cons (List.cons_ne_nil _ _)
    (Regex.firstMatch_lits "OBJECT-TYPE".toList _) hspaces
  have hall := firstMatch_name (List.cons_ne_nil _ _) hname
    (forall_head?_append (by decide) (Text.forall_mem_of_all rfl)) hkeyword
  rw [objectTypeRe, Definition.core, hobject.1]
  simpa only [List.append_assoc] using hall

end Found

/-! ### All definitions are found -/

section All

variable {chars : Characters} {r : Regex} {sel : Definition → Bool} {after : List Char}
  {groups : Definition → List (List Char)}

/-- **A pattern matches at some definitions only**: not in the other ones and not between them, and
there is no assignment in the clauses of the ones at which it matches. -/
def findsOnly (chars : Characters) (r : Regex) (sel : Definition → Bool) (after : List Char) :
    List Definition → Bool
  | [] => r.quiet after []
  | d :: ds =>
    (if sel d then (assignRe chars).quiet d.body (d.assigned ++ (d.gap ++ restText after ds))
      else r.quiet d.core (d.gap ++ restText after ds)) &&
      r.quiet d.gap (restText after ds) && findsOnly chars r sel after ds

/-- The same of a module: the pattern does not match before the definitions either. -/
def Module.findsOnly (chars : Characters) (M : Module) (r : Regex) (sel : Definition → Bool) : Bool :=
  r.quiet M.before (restText M.after M.definitions) &&
    Mib.findsOnly chars r sel M.after M.definitions

theorem findAll_quiet {a b : List Char} (h : r.quiet a b = true) :
    r.findAll 0 (a ++ b) = r.findAll 0 b :=
  Regex.findAll_append (Regex.firstMatch_of_quiet h)

theorem findAll_restText {ds : List Definition} (h : findsOnly chars r sel after ds = true)
    (hfound : ∀ d ∈ ds, sel d = true → ∀ t,
      (assignRe chars).quiet d.body (d.assigned ++ t) = true →
        r.firstMatch (d.core ++ t) = some (groups d, t)) :
    r.findAll 0 (restText after ds) = (ds.filter sel).map groups := by
  induction ds with
  | nil =>
    have hend := findAll_quiet h
    rw [List.append_nil] at hend
    exact hend
  | cons d ds ih =>
    rw [findsOnly, Bool.and_eq_true, Bool.and_eq_true] at h
    obtain ⟨⟨hd, hgap⟩, hds⟩ := h
    obtain ⟨hfound, hall⟩ := List.forall_mem_cons.mp hfound
    have hrest := (findAll_quiet hgap).trans (ih hds hall)
    rw [restText]
    split_ifs at hd with hsel
    · rw [Regex.findAll_of_firstMatch d.core_ne_nil (hfound hsel _ hd), hrest,
        List.filter_cons_of_pos hsel, List.map_cons]
    · rw [findAll_quiet hd, hrest, List.filter_cons_of_neg hsel]

/-- **The definitions** that a pattern finds in a module. -/
theorem findAll_text {M : Module} (h : M.findsOnly chars r sel = true)
    (hfound : ∀ d ∈ M.definitions, sel d = true → ∀ t,
      (assignRe chars).quiet d.body (d.assigned ++ t) = true →
        r.firstMatch (d.core ++ t) = some (groups d, t)) :
    r.findAll 0 M.text = (M.definitions.filter sel).map groups := by
  rw [Module.findsOnly, Bool.and_eq_true] at h
  exact (findAll_quiet h.1).trans (findAll_restText h.2 hfound)

end All

end Nodeglow.Mib
