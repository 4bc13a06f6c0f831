import Mathlib.Data.List.Infix
import Nodeglow.Foundation.Json
import Nodeglow.Foundation.Text

/-!
# Conditions of alert rules

An alert rule names a place in a snapshot by a path, and compares what stands there with a threshold
by one of twelve operators. The paths go through objects by their keys and through lists by
positions, and `*` stands for the first element of a list under which the rest of the path leads
somewhere. JSON's `null` is Python's `None`, which means that there is nothing.

The numbers and texts of Python, and its regular expressions, are parameters.

Source: `backend/services/rules.py`, lines 24–87.
-/

namespace Nodeglow.AlertRules

/-- What `float(val)` does. Of its errors `_num` does not catch the one for an integer that is too
large. -/
inductive FloatResult (φ : Type)
  | value (x : φ)
  | notNumber
  | overflow

/-- What the conditions use of Python. -/
structure Builtins where
  φ : Type
  zero : φ
  lt : φ → φ → Bool
  le : φ → φ → Bool
  float : Json → FloatResult φ
  /-- `int` of a text, which raises for a text that is no number. -/
  int : String → Option ℤ
  str : Json → String
  lower : String → String
  /-- `re.search(pattern, text)`, which raises for a text that is no pattern. -/
  search : String → String → Option Bool

/-- Python where numbers stand for themselves and patterns are plain texts. -/
def plainBuiltins : Builtins where
  φ := ℚ
  zero := 0
  lt x y := x < y
  le x y := x ≤ y
  float
    | .num q => .value q
    | _ => .notNumber
  int _ := none
  str
    | .str s => s
    | _ => ""
  lower := Text.asciiLower
  search pattern text := some (pattern.toList <:+: text.toList)

/-! ### Fields -/

/-- A value that is not `None`. -/
def present : Json → Option Json
  | .null => none
  | j => some j

/-- `items[k]`. A negative position counts from the end. -/
def itemAt (items : List Json) (k : ℤ) : Option Json :=
  if 0 ≤ k then items[k.toNat]?
  else if 0 ≤ items.length + k then items[(items.length + k).toNat]?
  else none

/-- The loop of `extract_field` over the parts of a path, where `wildcard` says what a `*` leads to
in a list. -/
def walk (b : Builtins) (wildcard : List Json → Option Json) : List String → Json → Option Json
  | [], current => present current
  | part :: rest, .obj fields => walk b wildcard rest ((Json.get? (.obj fields) part).getD .null)
  | part :: rest, .arr items =>
    if part = "*" then wildcard items
    else ((b.int part).bind (itemAt items)).bind (walk b wildcard rest)
  | _ :: _, _ => none

/-- The parts of the path that is left after the first `*`. -/
def afterWildcard (parts : List String) : List String :=
  match (parts.dropWhile (· ≠ "*")).drop 1 with
  | [] => [""]
  | rest => rest

/-- `extract_field` for a path with at most `n` wildcards. -/
def extractParts (b : Builtins) : ℕ → List String → Json → Option Json
  | 0, parts => walk b (fun _ => none) parts
  | n + 1, parts => walk b (fun items => items.findSome? fun
    | .obj fields => extractParts b n (afterWildcard parts) (.obj fields)
    | _ => none) parts

/-- `path.split(".")`. -/
def pathParts (path : String) : List String := (path.toList.splitOn '.').map String.ofList

/-- `extract_field`. -/
def extractField (b : Builtins) (data : Json) (path : String) : Option Json :=
  extractParts b ((pathParts path).count "*") (pathParts path) data

/-! ### Operators -/

variable (b : Builtins)

/-- `_num`. -/
def num (v : Json) : Option b.φ :=
  match b.float v with
  | .value x => some x
  | .notNumber => some b.zero
  | .overflow => none

/-- `_truthy`. -/
def truthy : Json → Bool
  | .bool x => x
  | .str s => b.lower s ∈ ["true", "1", "yes", "on"]
  | v => v.truthy

/-- A comparison of the numbers of the value and the threshold. -/
def compareNum (r : b.φ → b.φ → Bool) (v t : Json) : Option Bool := do
  let x ← num b v
  let y ← num b t
  return r x y

/-- `str(v).lower()`. -/
def lowerStr (v : Json) : String := b.lower (b.str v)

/-- `OPERATORS`. An operator that raises has no answer. -/
def operators : String → Option (Json → Json → Option Bool)
  | "gt" => some (compareNum b fun x y => b.lt y x)
  | "lt" => some (compareNum b b.lt)
  | "gte" => some (compareNum b fun x y => b.le y x)
  | "lte" => some (compareNum b b.le)
  | "eq" => some fun v t => some (lowerStr b v = lowerStr b t)
  | "ne" => some fun v t => some (lowerStr b v ≠ lowerStr b t)
  | "contains" => some fun v t => some ((lowerStr b t).toList <:+: (lowerStr b v).toList)
  | "not_contains" => some fun v t => some !((lowerStr b t).toList <:+: (lowerStr b v).toList)
  | "regex" => some fun v t => b.search (b.str t) (b.str v)
  | "not_regex" => some fun v t => (b.search (b.str t) (b.str v)).map (!·)
  | "is_true" => some fun v _ => some (truthy b v)
  | "is_false" => some fun v _ => some !truthy b v
  | _ => none

end Nodeglow.AlertRules
