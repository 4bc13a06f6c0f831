import Mathlib.Data.Rat.Defs

/-!
# JSON documents

JSON values as Python's `json` module presents them, with the operations that reading code applies
to them: truth values and looking up a key of an object. What is not an object has no keys.

## Main definitions

* `Json`, `Json.truthy`, `Json.get?`, `Json.str?`.
* `Json.UniqueKeys` — the documents in which no object has a key twice.

## Main results

* `Json.get?_of_mem` — the value of a field.
-/

namespace Nodeglow

/-- A JSON value. -/
inductive Json
  | null
  | bool (b : Bool)
  | num (q : ℚ)
  | str (s : String)
  | arr (items : List Json)
  | obj (fields : List (String × Json))
deriving Inhabited

namespace Json

/-- The truth value of a JSON value in a Python condition. -/
def truthy : Json → Bool
  | null => false
  | bool b => b
  | num q => q ≠ 0
  | str s => s ≠ ""
  | arr items => !items.isEmpty
  | obj fields => !fields.isEmpty

/-- The value of a key of an object. Of a key that stands twice, the last value counts. -/
def get? (j : Json) (key : String) : Option Json :=
  match j with
  | obj fields => (fields.reverse.find? fun p => p.1 = key).map Prod.snd
  | _ => none

mutual

/-- No object has a key twice. -/
def UniqueKeys : Json → Prop
  | obj fields => UniqueFields fields
  | arr items => UniqueItems items
  | _ => True

/-- No key stands twice among the fields, or within their values. -/
def UniqueFields : List (String × Json) → Prop
  | [] => True
  | (key, v) :: fields => (∀ field ∈ fields, field.1 ≠ key) ∧ UniqueKeys v ∧ UniqueFields fields

/-- No key stands twice within the items. -/
def UniqueItems : List Json → Prop
  | [] => True
  | v :: items => UniqueKeys v ∧ UniqueItems items

end

/-- Where no key stands twice, a field is the one of its key. -/
theorem get?_of_mem {fields : List (String × Json)} {key : String} {v : Json}
    (hunique : UniqueFields fields) (h : (key, v) ∈ fields) : get? (obj fields) key = some v := by
  have hfind : fields.reverse.find? (fun p => p.1 = key) = some (key, v) := by
    induction fields with
    | nil => cases h
    | cons field fields ih =>
      obtain ⟨hne, -, htail⟩ := hunique
      rw [List.reverse_cons, List.find?_append]
      rcases List.mem_cons.mp h with rfl | h
      · have hnone : fields.reverse.find? (fun p => p.1 = key) = none := by
          rw [List.find?_eq_none]
          intro p hp
          simpa using hne p (List.mem_reverse.mp hp)
        rw [hnone]
        simp
      · rw [ih htail h]
        rfl
  rw [get?, hfind]
  rfl

/-- The text of a JSON string. -/
def str? : Json → Option String
  | str s => some s
  | _ => none

end Json

end Nodeglow
