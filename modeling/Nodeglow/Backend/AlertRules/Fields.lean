import Nodeglow.Backend.AlertRules.Conditions

/-!
# The fields that are offered for a rule

The places of a snapshot that a rule can be about are found by walking through it: through the keys
of its objects, and through the first element of a list of objects. Each place is offered under a
path, its keys with dots between them and a `*` for the elements of a list.

A path is read back by splitting it at the dots. A place is *plain* if that gives its keys: no key
has a dot, the place does not start with an empty key before another key, and no key before a `*` is
itself a `*`. The path of a plain place leads to the value at the place. Where this is `null` below
a list, it leads to the first element of the list under which there is a value, by design.

## Main results

* `discoverFields_eq` — every offered field is that of a place.
* `offered_leads` — where the path of an offered field leads.
* `not_leads_sample` — a list whose first element has no value there.

Source: `backend/services/rules.py`, lines 60–109.
-/

namespace Nodeglow.AlertRules

/-! ### Discovering fields -/

inductive FieldType
  | number
  | boolean
  | string
  | list
  deriving DecidableEq, Repr

/-- An offered field: its path, the value that is shown, and its type. -/
structure Field where
  path : String
  value : Json
  type : FieldType

/-- The type of a value that is no list. A Python boolean is a number. -/
def fieldType : Json → FieldType
  | .num _ => .number
  | .bool _ => .number
  | _ => .string

/-- The field of a value: of a list, the start of its text is shown. -/
def leafField (b : Builtins) (path : String) : Json → Field
  | .arr items => ⟨path, .str (String.ofList ((b.str (.arr items)).toList.take 100)), .list⟩
  | v => ⟨path, v, fieldType v⟩

/-- The path of a key. -/
def childPath (parent key : String) : String := if parent = "" then key else parent ++ "." ++ key

section Discover

variable (b : Builtins)

mutual

/-- `discover_fields`, with the path so far. -/
def discoverFields : Json → String → List Field
  | .obj fields, parent => discoverItems fields parent
  | _, _ => []

/-- The loop of `discover_fields` over the items of an object. -/
def discoverItems : List (String × Json) → String → List Field
  | [], _ => []
  | (key, v) :: fields, parent =>
    discoverValue v (childPath parent key) ++ discoverItems fields parent

/-- The turn of the loop for a value. -/
def discoverValue : Json → String → List Field
  | .obj fields, path => discoverItems fields path
  | .arr items, path => discoverList items path
  | v, path => [leafField b path v]

/-- The turn of the loop for a list: fields from its first element, if this is an object. -/
def discoverList : List Json → String → List Field
  | .obj fields :: _, path => discoverItems fields (path ++ ".*")
  | items, path => [leafField b path (.arr items)]

end

end Discover

/-! ### Places -/

/-- A step into a document. -/
inductive PathStep
  | key (k : String)
  /-- The first element of a list. -/
  | first
  deriving DecidableEq, Repr

/-- What a step is called in a path. -/
def PathStep.text : PathStep → String
  | key k => k
  | first => "*"

mutual

/-- The places in the items of an object, with their values. -/
def leaves : List (String × Json) → List (List PathStep × Json)
  | [] => []
  | (key, v) :: fields => (valueLeaves v).map (fun x => (.key key :: x.1, x.2)) ++ leaves fields

/-- The places in a value. -/
def valueLeaves : Json → List (List PathStep × Json)
  | .obj fields => leaves fields
  | .arr items => listLeaves items
  | v => [([], v)]

/-- The places in a list. -/
def listLeaves : List Json → List (List PathStep × Json)
  | .obj fields :: _ => (leaves fields).map fun x => (.first :: x.1, x.2)
  | items => [([], .arr items)]

end

/-- The path of a place. -/
def pathOf (parent : String) : List PathStep → String
  | [] => parent
  | .key k :: p => pathOf (childPath parent k) p
  | .first :: p => pathOf (parent ++ ".*") p

mutual

theorem discoverItems_eq (b : Builtins) (parent : String) : ∀ fields : List (String × Json),
    discoverItems b fields parent =
      (leaves fields).map fun x => leafField b (pathOf parent x.1) x.2
  | [] => rfl
  | (key, v) :: fields => by
    rw [discoverItems, leaves, List.map_append, List.map_map, discoverItems_eq b parent fields,
      discoverValue_eq b (childPath parent key) v]
    rfl

theorem discoverValue_eq (b : Builtins) (path : String) : ∀ v : Json,
    discoverValue b v path = (valueLeaves v).map fun x => leafField b (pathOf path x.1) x.2
  | .obj fields => discoverItems_eq b path fields
  | .arr items => discoverList_eq b path items
  | .null => rfl
  | .bool _ => rfl
  | .num _ => rfl
  | .str _ => rfl

theorem discoverList_eq (b : Builtins) (path : String) : ∀ items : List Json,
    discoverList b items path = (listLeaves items).map fun x => leafField b (pathOf path x.1) x.2
  | [] => rfl
  | .obj fields :: _ => by
    rw [discoverList, listLeaves, List.map_map, discoverItems_eq b (path ++ ".*") fields]
    rfl
  | .null :: _ => rfl
  | .bool _ :: _ => rfl
  | .num _ :: _ => rfl
  | .str _ :: _ => rfl
  | .arr _ :: _ => rfl

end

/-- **The value at a place.** -/
inductive FoundAt : Json → List PathStep → Json → Prop
  | here (v : Json) : FoundAt v [] v
  | key {j v w : Json} {k : String} {p : List PathStep} (h : j.get? k = some v)
      (hv : FoundAt v p w) :
      FoundAt j (.key k :: p) w
  | first {fields : List (String × Json)} {items : List Json} {s : PathStep} {p : List PathStep}
      {w : Json} (h : FoundAt (.obj fields) (s :: p) w) :
      FoundAt (.arr (.obj fields :: items)) (.first :: s :: p) w

mutual

theorem exists_of_mem_leaves : ∀ {fields : List (String × Json)} {x : List PathStep × Json},
    Json.UniqueFields fields → x ∈ leaves fields →
      ∃ k p v, (k, v) ∈ fields ∧ x.1 = .key k :: p ∧ FoundAt v p x.2
  | [], _, _, hx => nomatch hx
  | (key, v) :: fields, x, hunique, hx => by
    obtain ⟨-, hv, hfields⟩ := hunique
    rcases List.mem_append.mp hx with hx | hx
    · obtain ⟨y, hy, rfl⟩ := List.mem_map.mp hx
      exact ⟨key, y.1, v, List.mem_cons_self, rfl, foundAt_of_mem_valueLeaves hv hy⟩
    · obtain ⟨k, p, w, hmem, hplace, hfound⟩ := exists_of_mem_leaves hfields hx
      exact ⟨k, p, w, List.mem_cons_of_mem _ hmem, hplace, hfound⟩

theorem foundAt_of_mem_valueLeaves : ∀ {v : Json} {x : List PathStep × Json},
    v.UniqueKeys → x ∈ valueLeaves v → FoundAt v x.1 x.2
  | .obj fields, x, hunique, hx => by
    obtain ⟨k, p, w, hmem, hplace, hfound⟩ := exists_of_mem_leaves hunique hx
    rw [hplace]
    exact .key (Json.get?_of_mem hunique hmem) hfound
  | .arr items, _, hunique, hx => foundAt_of_mem_listLeaves hunique hx
  | .null, _, _, hx => List.mem_singleton.mp hx ▸ .here _
  | .bool _, _, _, hx => List.mem_singleton.mp hx ▸ .here _
  | .num _, _, _, hx => List.mem_singleton.mp hx ▸ .here _
  | .str _, _, _, hx => List.mem_singleton.mp hx ▸ .here _

theorem foundAt_of_mem_listLeaves : ∀ {items : List Json} {x : List PathStep × Json},
    Json.UniqueItems items → x ∈ listLeaves items → FoundAt (.arr items) x.1 x.2
  | [], _, _, hx => List.mem_singleton.mp hx ▸ .here _
  | .obj fields :: items, x, hunique, hx => by
    obtain ⟨hfields, -⟩ := hunique
    obtain ⟨y, hy, rfl⟩ := List.mem_map.mp hx
    obtain ⟨k, p, w, hmem, hplace, hfound⟩ := exists_of_mem_leaves hfields hy
    have hinner : FoundAt (.obj fields) (.key k :: p) y.2 :=
      .key (Json.get?_of_mem hfields hmem) hfound
    rw [hplace]
    exact .first hinner
  | .null :: _, _, _, hx => List.mem_singleton.mp hx ▸ .here _
  | .bool _ :: _, _, _, hx => List.mem_singleton.mp hx ▸ .here _
  | .num _ :: _, _, _, hx => List.mem_singleton.mp hx ▸ .here _
  | .str _ :: _, _, _, hx => List.mem_singleton.mp hx ▸ .here _
  | .arr _ :: _, _, _, hx => List.mem_singleton.mp hx ▸ .here _

end

/-! ### Reading a path back -/

/-- No key before a `*` for a list is itself a `*`. -/
def starsApart : List PathStep → Bool
  | [] => true
  | .key k :: p => (k ≠ "*" || .first ∉ p) && starsApart p
  | .first :: p => starsApart p

/-- The place does not start with an empty key before another key. -/
def startsPlain : List PathStep → Bool
  | .key k :: .key _ :: _ => k ≠ ""
  | _ => true

/-- **A plain place**: its path gives its keys back. -/
structure Plain (p : List PathStep) : Prop where
  noDots : ∀ s ∈ p, '.' ∉ s.text.toList
  starsApart : starsApart p = true
  startsPlain : startsPlain p = true

/-- `extract_field`, for the parts of a path. -/
def extractPath (b : Builtins) (parts : List String) (data : Json) : Option Json :=
  extractParts b (parts.count "*") parts data

/-- **Where the path of a place leads**: along the keys, and in a list to the first element under
which the rest of the path leads to a value. -/
def leadsTo (b : Builtins) : List PathStep → Json → Option Json
  | [], j => present j
  | .key k :: p, j => leadsTo b p ((j.get? k).getD .null)
  | .first :: p, .arr items => items.findSome? fun
    | .obj fields => extractPath b (p.map PathStep.text) (.obj fields)
    | _ => none
  | .first :: _, _ => none

variable {b : Builtins} {j v : Json} {p : List PathStep} {parent k : String} {parts : List String}

theorem pathParts_append_dot (hk : '.' ∉ k.toList) :
    pathParts (parent ++ "." ++ k) = pathParts parent ++ [k] := by
  have hlist : (parent ++ "." ++ k).toList = parent.toList ++ '.' :: k.toList := by
    rw [String.toList_append, String.toList_append, List.append_assoc]
    rfl
  rw [pathParts, hlist, List.splitOn_append_cons_self, List.map_append,
    List.splitOn_eq_singleton hk]
  simp [pathParts]

/-- A path that is not empty is continued by its steps. -/
theorem pathParts_pathOf (hparent : parent ≠ "") (hdots : ∀ s ∈ p, '.' ∉ s.text.toList) :
    pathParts (pathOf parent p) = pathParts parent ++ p.map PathStep.text := by
  induction p generalizing parent with
  | nil => rw [List.map_nil, List.append_nil, pathOf]
  | cons s p ih =>
    obtain ⟨hs, hp⟩ := List.forall_mem_cons.mp hdots
    have hne (text : String) : parent ++ "." ++ text ≠ "" := by
      intro hempty
      have hlength := congrArg String.length hempty
      simp at hlength
    have hstep : pathOf parent (s :: p) = pathOf (parent ++ "." ++ s.text) p := by
      cases s with
      | key k => rw [pathOf, childPath, if_neg hparent]; rfl
      | first =>
        rw [pathOf]
        congr 1
        rw [String.append_assoc]
        rfl
    rw [hstep, ih (hne _) hp, pathParts_append_dot hs, List.append_assoc, List.map_cons]
    rfl

/-- **The path of a plain place** has its steps as parts. -/
theorem pathParts_of_plain (hp : Plain (.key k :: p)) :
    pathParts (pathOf "" (.key k :: p)) = (PathStep.key k :: p).map PathStep.text := by
  obtain ⟨(hk : '.' ∉ k.toList), hdots⟩ := List.forall_mem_cons.mp hp.noDots
  have hsingle : pathParts k = [k] := by
    rw [pathParts, List.splitOn_eq_singleton hk]
    simp
  rw [pathOf, childPath, if_pos rfl]
  by_cases hempty : k = ""
  · subst hempty
    match p, hp, hdots with
    | [], _, _ => exact hsingle
    | .key _ :: _, hp, _ => exact absurd hp.startsPlain (by simp [AlertRules.startsPlain])
    | .first :: p, _, hdots =>
      rw [pathOf, pathParts_pathOf (by decide) (List.forall_mem_cons.mp hdots).2]
      rfl
  · rw [pathParts_pathOf hempty hdots, hsingle]
    rfl

/-! ### Walking along a path -/

theorem extractPath_eq_walk (b : Builtins) (parts : List String) :
    ∃ wildcard, ∀ j, extractPath b parts j = walk b wildcard parts j := by
  unfold extractPath
  cases parts.count "*" with
  | zero => exact ⟨_, fun _ => rfl⟩
  | succ n => exact ⟨_, fun _ => rfl⟩

/-- A key leads from an object to its value. -/
theorem extractPath_key (hk : k ≠ "*") (h : j.get? k = some v) :
    extractPath b (k :: parts) j = extractPath b parts v := by
  cases j with
  | obj fields =>
    have hafter : afterWildcard (k :: parts) = afterWildcard parts := by
      have hdrop : (k :: parts).dropWhile (· ≠ "*") = parts.dropWhile (· ≠ "*") :=
        List.dropWhile_cons_of_pos (decide_eq_true hk)
      rw [afterWildcard, hdrop, afterWildcard]
    rw [extractPath, extractPath, List.count_cons_of_ne hk]
    cases parts.count "*" with
    | zero => rw [extractParts, walk, h, Option.getD_some, extractParts]
    | succ n => rw [extractParts, walk, h, Option.getD_some, extractParts, hafter]
  | _ => cases h

/-- A `*` leads to the first element of a list under which the rest of the path leads to a value. -/
theorem extractPath_star {items : List Json} (hparts : parts ≠ []) :
    extractPath b ("*" :: parts) (.arr items) = items.findSome? fun
      | .obj fields => extractPath b parts (.obj fields)
      | _ => none := by
  have hafter : afterWildcard ("*" :: parts) = parts := by
    rw [afterWildcard, List.dropWhile_cons_of_neg (by decide), List.drop_one, List.tail_cons]
    cases parts with
    | nil => exact absurd rfl hparts
    | cons part parts => rfl
  rw [extractPath, List.count_cons_self, extractParts, walk, if_pos rfl, hafter]
  rfl

/-- A place that does not go through a list. -/
theorem walk_of_keys {wildcard : List Json → Option Json} (h : FoundAt j p v) (hp : .first ∉ p) :
    walk b wildcard (p.map PathStep.text) j = present v := by
  induction h with
  | here v => rfl
  | @key j _ _ k p h _ ih =>
    cases j with
    | obj fields =>
      rw [List.map_cons, PathStep.text, walk, h, Option.getD_some]
      exact ih fun hmem => hp (List.mem_cons_of_mem _ hmem)
    | _ => cases h
  | first => exact absurd List.mem_cons_self hp

theorem leadsTo_of_keys (h : FoundAt j p v) (hp : .first ∉ p) : leadsTo b p j = present v := by
  induction h with
  | here v => rfl
  | key h _ ih =>
    rw [leadsTo, h, Option.getD_some]
    exact ih fun hmem => hp (List.mem_cons_of_mem _ hmem)
  | first => exact absurd List.mem_cons_self hp

/-- **Walking along the path of a place.** -/
theorem extractPath_eq_leadsTo (h : FoundAt j p v) (hstars : starsApart p = true) :
    extractPath b (p.map PathStep.text) j = leadsTo b p j := by
  induction h with
  | here v => rfl
  | @key j _ _ k p h hv ih =>
    rw [starsApart, Bool.and_eq_true] at hstars
    by_cases hp : .first ∈ p
    · have hk : k ≠ "*" := by simpa [hp] using hstars.1
      rw [List.map_cons, PathStep.text, extractPath_key hk h, ih hstars.2, leadsTo, h,
        Option.getD_some]
    · have hnot : .first ∉ PathStep.key k :: p := by simpa using hp
      obtain ⟨wildcard, hwalk⟩ := extractPath_eq_walk b ((PathStep.key k :: p).map PathStep.text)
      rw [hwalk, walk_of_keys (.key h hv) hnot, leadsTo_of_keys (.key h hv) hnot]
  | first h _ =>
    rw [List.map_cons, PathStep.text, extractPath_star (by simp)]
    rfl

/-- **A value that is not `null`** is where the path of its place leads. -/
theorem leadsTo_of_ne_null (h : FoundAt j p v) (hstars : starsApart p = true) (hv : v ≠ .null) :
    leadsTo b p j = some v := by
  induction h with
  | here v => cases v <;> first | rfl | exact absurd rfl hv
  | key h _ ih =>
    rw [starsApart, Bool.and_eq_true] at hstars
    rw [leadsTo, h, Option.getD_some]
    exact ih hstars.2 hv
  | first h ih =>
    rw [starsApart] at hstars
    rw [leadsTo, List.findSome?_cons]
    simp only [extractPath_eq_leadsTo h hstars, ih hstars hv]

/-! ### Offered fields -/

/-- A snapshot: no object in it has a key twice. -/
structure Snapshot where
  data : Json
  unique : data.UniqueKeys

/-- The places of a snapshot that are offered, with their values. -/
def Snapshot.places (s : Snapshot) : List (List PathStep × Json) :=
  match s.data with
  | .obj fields => leaves fields
  | _ => []

/-- **Every offered field** is that of a place. -/
theorem discoverFields_eq (b : Builtins) (s : Snapshot) :
    discoverFields b s.data "" = s.places.map fun x => leafField b (pathOf "" x.1) x.2 := by
  rw [Snapshot.places]
  cases s.data with
  | obj fields => exact discoverItems_eq b "" fields
  | _ => rfl

theorem Snapshot.foundAt {s : Snapshot} {x : List PathStep × Json} (hx : x ∈ s.places) :
    ∃ k p, x.1 = .key k :: p ∧ FoundAt s.data x.1 x.2 := by
  obtain ⟨data, hunique⟩ := s
  cases data with
  | obj fields =>
    obtain ⟨k, p, w, hmem, hplace, hfound⟩ := exists_of_mem_leaves hunique hx
    refine ⟨k, p, hplace, ?_⟩
    rw [hplace]
    exact .key (Json.get?_of_mem hunique hmem) hfound
  | _ => cases hx

/-- **Where the path of an offered field leads**: for a plain place along its steps, to the first
element under which there is a value in a list. This is the value at the place, unless that is
`null` below a list. -/
theorem offered_leads (b : Builtins) (s : Snapshot) :
    discoverFields b s.data "" = s.places.map (fun x => leafField b (pathOf "" x.1) x.2) ∧
      ∀ x ∈ s.places, FoundAt s.data x.1 x.2 ∧ (Plain x.1 →
        extractField b s.data (pathOf "" x.1) = leadsTo b x.1 s.data ∧
          (x.2 ≠ .null → extractField b s.data (pathOf "" x.1) = some x.2) ∧
          (.first ∉ x.1 → extractField b s.data (pathOf "" x.1) = present x.2)) := by
  refine ⟨discoverFields_eq b s, fun x hx => ?_⟩
  obtain ⟨k, p, hplace, hfound⟩ := Snapshot.foundAt hx
  refine ⟨hfound, fun hplain => ?_⟩
  have hfield : extractField b s.data (pathOf "" x.1) = leadsTo b x.1 s.data := by
    have hparts : pathParts (pathOf "" x.1) = x.1.map PathStep.text := by
      rw [hplace]
      exact pathParts_of_plain (hplace ▸ hplain)
    rw [← extractPath_eq_leadsTo hfound hplain.starsApart, ← hparts]
    rfl
  rw [hfield]
  exact ⟨rfl, leadsTo_of_ne_null hfound hplain.starsApart, leadsTo_of_keys hfound⟩

/-- Two disks, the first one without a temperature. -/
def disks : Snapshot where
  data := .obj [("disks", .arr [.obj [("temp", .null)], .obj [("temp", .num 5)]])]
  unique := by simp [Json.UniqueKeys, Json.UniqueFields, Json.UniqueItems]

/-- The temperature of the first disk that has one. -/
theorem offered_leads_disks :
    extractField plainBuiltins disks.data (pathOf "" [.key "disks", .first, .key "temp"]) =
      leadsTo plainBuiltins [.key "disks", .first, .key "temp"] disks.data :=
  (((offered_leads plainBuiltins disks).2 ([.key "disks", .first, .key "temp"], .null)
    List.mem_cons_self).2 ⟨by decide, by decide, by decide⟩).1

/-- **An offered field without a value** leads to the value of the second disk. -/
theorem not_leads_sample :
    ¬∀ (b : Builtins) (s : Snapshot), ∀ x ∈ s.places,
      extractField b s.data (pathOf "" x.1) = present x.2 := by
  intro h
  have hnone := h plainBuiltins disks ([.key "disks", .first, .key "temp"], .null)
    List.mem_cons_self
  have hsome : extractField plainBuiltins disks.data "disks.*.temp" = some (.num 5) := rfl
  cases hsome.symm.trans hnone

end Nodeglow.AlertRules
