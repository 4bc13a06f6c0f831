import Mathlib.Data.List.Nodup
import Mathlib.Data.List.Perm.Basic
import Nodeglow.Foundation.Text

/-!
# The text form of JSON

JSON texts as Python's `json` module writes and reads them. Texts are written with ASCII characters
only, and with the separators that are given; they are read with white space between the tokens.
Reading consumes fuel; the length of the text is enough.

Finite floating-point numbers are a parameter, with the text form of `repr`. A key may stand twice
in an object.

## Main definitions

* `JsonValue`, `JsonValue.get` — the values that are written and read.
* `FloatText` — the text form of floating-point numbers.
* `JsonText.dumps`, `JsonText.loads` — writing and reading.

## Main results

* `JsonText.scanNumber_append` — a number is read up to what ends it.
* `JsonText.scanString_escape` — an escaped text is read up to its quote.
* `JsonText.loads_dumps` — what was written is read again.
-/

namespace Nodeglow

/-- A floating-point number. -/
inductive PyFloat (F : Type)
  | finite (x : F)
  | inf
  | negInf
  | nan
deriving DecidableEq

/-- A value of Python's `json` module. -/
inductive JsonValue (F : Type)
  | null
  | bool (b : Bool)
  | int (n : ℤ)
  | float (x : PyFloat F)
  | str (s : String)
  | list (items : List (JsonValue F))
  | dict (fields : List (String × JsonValue F))

/-- `dict.get`, of an object that is read: of a key that stands twice, the last value counts. What
is no object has no keys. -/
def JsonValue.get {F : Type} (v : JsonValue F) (key : String) : JsonValue F :=
  match v with
  | .dict fields => ((fields.reverse.find? fun p => p.1 = key).map Prod.snd).getD .null
  | _ => .null

namespace JsonValue

variable {F : Type} {fields fields' : List (String × JsonValue F)} {key : String} {v : JsonValue F}
  {l : List (String × Option (JsonValue F))} {o : Option (JsonValue F)}

/-- The fields of an object, of which some are missing. -/
def someFields (l : List (String × Option (JsonValue F))) : List (String × JsonValue F) :=
  l.filterMap fun p => p.2.map fun v => (p.1, v)

theorem get_of_notMem (h : key ∉ fields.map Prod.fst) : (dict fields).get key = .null := by
  have hnone : fields.reverse.find? (fun p => p.1 = key) = none := by
    simp only [List.find?_eq_none, List.mem_reverse, decide_eq_true_eq]
    exact fun p hp heq => h (heq ▸ List.mem_map_of_mem hp)
  rw [get, hnone]
  rfl

theorem get_of_mem (hnodup : (fields.map Prod.fst).Nodup) (h : (key, v) ∈ fields) :
    (dict fields).get key = v := by
  cases hfind : fields.reverse.find? (fun p => p.1 = key) with
  | none =>
    have hnot := List.find?_eq_none.mp hfind (key, v) (List.mem_reverse.mpr h)
    simp at hnot
  | some p =>
    have hmem : p ∈ fields := List.mem_reverse.mp (List.mem_of_find?_eq_some hfind)
    have hkey : p.1 = key := by simpa using List.find?_some hfind
    obtain rfl : p = (key, v) := List.inj_on_of_nodup_map hnodup hmem h hkey
    simp [get, hfind]

/-- **Objects that differ in the order** of their fields only have the same values. -/
theorem get_perm (hnodup : (fields.map Prod.fst).Nodup) (h : fields.Perm fields') (key : String) :
    (dict fields).get key = (dict fields').get key := by
  by_cases hkey : key ∈ fields.map Prod.fst
  · obtain ⟨⟨key, v⟩, hmem, rfl⟩ := List.mem_map.mp hkey
    rw [get_of_mem hnodup hmem, get_of_mem ((h.map Prod.fst).nodup_iff.mp hnodup) (h.subset hmem)]
  · rw [get_of_notMem hkey, get_of_notMem fun hmem => hkey ((h.map Prod.fst).symm.subset hmem)]

theorem mem_someFields : (key, v) ∈ someFields l ↔ (key, some v) ∈ l := by
  simp only [someFields, List.mem_filterMap, Option.map_eq_some_iff, Prod.mk.injEq]
  constructor
  · rintro ⟨⟨key', o⟩, hmem, v', rfl, rfl, rfl⟩
    exact hmem
  · exact fun hmem => ⟨(key, some v), hmem, v, rfl, rfl, rfl⟩

theorem keys_someFields_sublist : ((someFields l).map Prod.fst).Sublist (l.map Prod.fst) := by
  induction l with
  | nil => exact List.Sublist.slnil
  | cons p l ih =>
    obtain ⟨key, _ | v⟩ := p
    · exact ih.cons key
    · exact ih.cons_cons key

/-- The value of a field that may be missing. -/
theorem get_someFields (hnodup : (l.map Prod.fst).Nodup) (h : (key, o) ∈ l) :
    (dict (someFields l)).get key = o.getD .null := by
  cases o with
  | none =>
    refine get_of_notMem fun hmem => ?_
    obtain ⟨⟨key, v⟩, hsome, rfl⟩ := List.mem_map.mp hmem
    have heq := List.inj_on_of_nodup_map hnodup h (mem_someFields.mp hsome) rfl
    cases heq
  | some v => exact get_of_mem (keys_someFields_sublist.nodup hnodup) (mem_someFields.mpr h)

end JsonValue

namespace JsonText

/-! ### Numbers -/

/-- The digits at the start of a text. -/
def digits (s : List Char) : List Char := s.takeWhile Char.isDigit

/-- The sign at the start of a text. -/
def sign (s : List Char) : List Char := if s.head? = some '-' then ['-'] else []

/-- The integer at the start of a text, which has no leading zero. -/
def intPart : List Char → List Char
  | [] => []
  | c :: s => if c = '0' then [c] else if c.isDigit then c :: digits s else []

/-- The fraction at the start of a text. -/
def fraction (s : List Char) : List Char :=
  if s.head? = some '.' ∧ digits s.tail ≠ [] then '.' :: digits s.tail else []

/-- The exponent at the start of a text. -/
def exponent : List Char → List Char
  | [] => []
  | e :: s =>
    let sg := if s.head? = some '+' ∨ s.head? = some '-' then s.take 1 else []
    let ds := digits (s.drop sg.length)
    if (e = 'e' ∨ e = 'E') ∧ ds ≠ [] then e :: (sg ++ ds) else []

/-- The text of an integer without its sign. -/
def IsInt (s : List Char) : Prop :=
  ∃ c ds, s = c :: ds ∧ c.isDigit ∧ (∀ d ∈ ds, d.isDigit) ∧ (c = '0' → ds = [])

/-- The text of a fraction, which may be missing. -/
def IsFraction (s : List Char) : Prop :=
  s = [] ∨ ∃ ds, s = '.' :: ds ∧ ds ≠ [] ∧ ∀ d ∈ ds, d.isDigit

/-- The text of an exponent, which may be missing. -/
def IsExponent (s : List Char) : Prop :=
  s = [] ∨ ∃ e sg ds, s = e :: (sg ++ ds) ∧ (e = 'e' ∨ e = 'E') ∧
    (sg = [] ∨ sg = ['+'] ∨ sg = ['-']) ∧ ds ≠ [] ∧ ∀ d ∈ ds, d.isDigit

/-- The text of a number that is no integer: it has a fraction or an exponent. -/
def IsFloat (s : List Char) : Prop :=
  ∃ sg int frac exp, s = sg ++ int ++ frac ++ exp ∧ (sg = [] ∨ sg = ['-']) ∧ IsInt int ∧
    IsFraction frac ∧ IsExponent exp ∧ (frac ≠ [] ∨ exp ≠ [])

end JsonText

/-- The text form of floating-point numbers: `float.__repr__` of the finite ones, and `float` of the
text of a number. -/
structure FloatText (F : Type) where
  repr : F → List Char
  parse : List Char → PyFloat F
  isFloat_repr : ∀ x, JsonText.IsFloat (repr x)
  parse_repr : ∀ x, parse (repr x) = .finite x

namespace JsonText

variable {F : Type} (py : FloatText F)

/-- A number at the start of a text. -/
def scanNumber (s : List Char) : Option (JsonValue F × List Char) :=
  let sg := sign s
  let s₁ := s.drop sg.length
  let int := intPart s₁
  let s₂ := s₁.drop int.length
  let frac := fraction s₂
  let s₃ := s₂.drop frac.length
  let exp := exponent s₃
  let n := (Nat.ofDigitChars 10 int 0 : ℤ)
  if int = [] then none
  else if frac = [] ∧ exp = [] then some (.int (if sg = [] then n else -n), s₃.drop exp.length)
  else some (.float (py.parse (sg ++ int ++ frac ++ exp)), s₃.drop exp.length)

/-- `int.__repr__`. -/
def intText (n : ℤ) : List Char :=
  if n < 0 then '-' :: Nat.toDigits 10 n.natAbs else Nat.toDigits 10 n.natAbs

/-! ### Texts -/

/-- `\uXXXX`. -/
def unicodeEscape (n : ℕ) : List Char :=
  ['\\', 'u', Text.hexDigit (n / 4096 % 16), Text.hexDigit (n / 256 % 16),
    Text.hexDigit (n / 16 % 16), Text.hexDigit (n % 16)]

/-- The characters that have an escape of their own, with its letter. -/
def shortEscapes : List (Char × Char) :=
  [('"', '"'), ('\\', '\\'), ('n', '\n'), ('r', '\r'), ('t', '\t'), ('b', Char.ofNat 8),
    ('f', Char.ofNat 12)]

/-- A character, in ASCII. One outside the Basic Multilingual Plane is a pair of surrogates. -/
def escapeChar (c : Char) : List Char :=
  match shortEscapes.find? fun p => p.2 = c with
  | some p => ['\\', p.1]
  | none =>
    if 32 ≤ c.toNat ∧ c.toNat ≤ 126 then [c]
    else if c.toNat < 0x10000 then unicodeEscape c.toNat
    else
      unicodeEscape (0xD800 + (c.toNat - 0x10000) / 0x400) ++
        unicodeEscape (0xDC00 + (c.toNat - 0x10000) % 0x400)

/-- A text with its quotes. -/
def quote (s : String) : List Char := '"' :: (s.toList.flatMap escapeChar ++ ['"'])

/-- Four hexadecimal digits. -/
def scanHex : List Char → Option (ℕ × List Char)
  | a :: b :: c :: d :: s => do
      let a ← Text.hexValue a
      let b ← Text.hexValue b
      let c ← Text.hexValue c
      let d ← Text.hexValue d
      return (a.toNat * 4096 + b.toNat * 256 + c.toNat * 16 + d.toNat, s)
  | _ => none

/-- What follows `\u`. A surrogate without its other half is no character. -/
def scanUnicode (s : List Char) : Option (Char × List Char) := do
  let (n, s) ← scanHex s
  if 0xD800 ≤ n ∧ n < 0xDC00 then
    if s.take 2 = ['\\', 'u'] then
      let (m, s) ← scanHex (s.drop 2)
      if 0xDC00 ≤ m ∧ m < 0xE000 then
        some (Char.ofNat (0x10000 + (n - 0xD800) * 0x400 + (m - 0xDC00)), s)
      else none
    else none
  else if 0xDC00 ≤ n ∧ n < 0xE000 then none
  else some (Char.ofNat n, s)

/-- The character at the start of a text in quotes. Control characters are escaped. -/
def scanChar : List Char → Option (Char × List Char)
  | [] => none
  | c :: s =>
    if c = '\\' then
      match s with
      | [] => none
      | e :: s =>
        if e = 'u' then scanUnicode s
        else if e = '/' then some ('/', s)
        else (shortEscapes.find? fun p => p.1 = e).map fun p => (p.2, s)
    else if c.toNat < 32 then none
    else some (c, s)

/-- A text up to its closing quote. -/
def scanString : ℕ → List Char → Option (List Char × List Char)
  | 0, _ => none
  | n + 1, s =>
    if s.head? = some '"' then some ([], s.tail)
    else do
      let (c, s) ← scanChar s
      let (cs, s) ← scanString n s
      return (c :: cs, s)

/-! ### Values -/

/-- White space between tokens. -/
def isBlank (c : Char) : Bool := c = ' ' ∨ c = '\t' ∨ c = '\n' ∨ c = '\r'

/-- What follows white space. -/
def skip (s : List Char) : List Char := s.dropWhile isBlank

/-- The words that are values. -/
def literals : List (List Char × JsonValue F) :=
  [("null".toList, .null), ("true".toList, .bool true), ("false".toList, .bool false),
    ("NaN".toList, .float .nan), ("Infinity".toList, .float .inf),
    ("-Infinity".toList, .float .negInf)]

/-- A value that has no parts. -/
def scanAtom (s : List Char) : Option (JsonValue F × List Char) :=
  match (literals (F := F)).find? fun p => p.1.isPrefixOf s with
  | some p => some (p.2, s.drop p.1.length)
  | none => scanNumber py s

mutual

/-- A value at the start of a text. -/
def scanValue : ℕ → List Char → Option (JsonValue F × List Char)
  | 0, _ => none
  | n + 1, s =>
    if s.head? = some '"' then do
      let (cs, rest) ← scanString s.length s.tail
      return (.str (String.ofList cs), rest)
    else if s.head? = some '[' then
      let s := skip s.tail
      if s.head? = some ']' then some (.list [], s.tail)
      else do
        let (vs, rest) ← scanItems n s
        return (.list vs, rest)
    else if s.head? = some '\x7b' then
      let s := skip s.tail
      if s.head? = some '\x7d' then some (.dict [], s.tail)
      else do
        let (fs, rest) ← scanFields n s
        return (.dict fs, rest)
    else scanAtom py s

/-- The items of a list, up to its bracket. -/
def scanItems : ℕ → List Char → Option (List (JsonValue F) × List Char)
  | 0, _ => none
  | n + 1, s => do
    let (v, s) ← scanValue n s
    let s := skip s
    if s.head? = some ',' then
      let (vs, rest) ← scanItems n (skip s.tail)
      return (v :: vs, rest)
    else if s.head? = some ']' then return ([v], s.tail)
    else none

/-- The fields of an object, up to its brace. -/
def scanFields : ℕ → List Char → Option (List (String × JsonValue F) × List Char)
  | 0, _ => none
  | n + 1, s =>
    if s.head? = some '"' then do
      let (key, s) ← scanString s.length s.tail
      let s := skip s
      if s.head? = some ':' then
        let (v, s) ← scanValue n (skip s.tail)
        let s := skip s
        if s.head? = some ',' then
          let (fs, rest) ← scanFields n (skip s.tail)
          return ((String.ofList key, v) :: fs, rest)
        else if s.head? = some '\x7d' then return ([(String.ofList key, v)], s.tail)
        else none
      else none
    else none

end

/-- `json.loads`. -/
def loads (text : String) : Option (JsonValue F) := do
  let s := skip text.toList
  let (v, rest) ← scanValue py s.length s
  if skip rest = [] then some v else none

/-- White space after the separators. -/
structure Separators where
  item : List Char
  key : List Char
  isBlank_item : ∀ c ∈ item, isBlank c
  isBlank_key : ∀ c ∈ key, isBlank c

/-- `separators=(", ", ": ")`. -/
def Separators.spaced : Separators :=
  ⟨[' '], [' '], Text.forall_mem_of_all rfl, Text.forall_mem_of_all rfl⟩

/-- `separators=(",", ":")`. -/
def Separators.compact : Separators := ⟨[], [], nofun, nofun⟩

/-- A floating-point number. -/
def floatText : PyFloat F → List Char
  | .finite x => py.repr x
  | .inf => "Infinity".toList
  | .negInf => "-Infinity".toList
  | .nan => "NaN".toList

variable (sep : Separators)

mutual

/-- `json.dumps`, as characters. -/
def write : JsonValue F → List Char
  | .null => "null".toList
  | .bool true => "true".toList
  | .bool false => "false".toList
  | .int n => intText n
  | .float x => floatText py x
  | .str s => quote s
  | .list [] => ['[', ']']
  | .list (v :: vs) => '[' :: (write v ++ writeItems vs)
  | .dict [] => ['\x7b', '\x7d']
  | .dict ((key, v) :: fs) => '\x7b' :: (quote key ++ ':' :: (sep.key ++ write v) ++ writeFields fs)

/-- The items after the first one, and the bracket. -/
def writeItems : List (JsonValue F) → List Char
  | [] => [']']
  | v :: vs => ',' :: (sep.item ++ write v) ++ writeItems vs

/-- The fields after the first one, and the brace. -/
def writeFields : List (String × JsonValue F) → List Char
  | [] => ['\x7d']
  | (key, v) :: fs =>
    ',' :: (sep.item ++ quote key ++ ':' :: (sep.key ++ write v)) ++ writeFields fs

end

/-- `sort_keys=True`, of the fields of one object. -/
def sortKeys (fields : List (String × JsonValue F)) : List (String × JsonValue F) :=
  fields.mergeSort fun p q => decide (p.1 ≤ q.1)

/-- `json.dumps`. -/
def dumps (v : JsonValue F) : String := String.ofList (write py sep v)

/-! ### Reading numbers -/

section Numbers

variable {sg int frac exp ds s t : List Char} {c : Char}

/-- What may follow a number: no digit, point or exponent. -/
def EndsNumber (t : List Char) : Prop :=
  ∀ c ∈ t.head?, c.isDigit = false ∧ c ≠ '.' ∧ c ≠ 'e' ∧ c ≠ 'E'

theorem digits_append (hds : ∀ d ∈ ds, d.isDigit) (ht : ∀ c ∈ t.head?, c.isDigit = false) :
    digits (ds ++ t) = ds := by
  have hrest : t.takeWhile Char.isDigit = [] := by
    cases t with
    | nil => rfl
    | cons c t => simp [ht c rfl]
  rw [digits, List.takeWhile_append_of_pos hds, hrest, List.append_nil]

theorem head?_of_isInt (hint : IsInt int) (t : List Char) :
    ∃ c, (int ++ t).head? = some c ∧ c.isDigit := by
  obtain ⟨c, ds, rfl, hc, -⟩ := hint
  exact ⟨c, rfl, hc⟩

theorem sign_append (hsg : sg = [] ∨ sg = ['-']) (hint : IsInt int) (t : List Char) :
    sign (sg ++ (int ++ t)) = sg := by
  rcases hsg with rfl | rfl
  · obtain ⟨c, hc, hdigit⟩ := head?_of_isInt hint t
    have hne : c ≠ '-' := by
      rintro rfl
      cases hdigit
    simp [sign, hc, hne]
  · rfl

theorem intPart_append (hint : IsInt int) (ht : ∀ c ∈ t.head?, c.isDigit = false) :
    intPart (int ++ t) = int := by
  obtain ⟨c, ds, rfl, hc, hds, hzero⟩ := hint
  by_cases h0 : c = '0'
  · rw [hzero h0, List.singleton_append, intPart, if_pos h0]
  · rw [List.cons_append, intPart, if_neg h0, if_pos hc, digits_append hds ht]

theorem fraction_append (hfrac : IsFraction frac)
    (ht : ∀ c ∈ t.head?, c.isDigit = false ∧ c ≠ '.') : fraction (frac ++ t) = frac := by
  rcases hfrac with rfl | ⟨ds, rfl, hne, hds⟩
  · have hhead : t.head? ≠ some '.' := fun heq => (ht '.' heq).2 rfl
    rw [List.nil_append, fraction, if_neg fun h => hhead h.1]
  · have hdigits : digits (ds ++ t) = ds := digits_append hds fun c hc => (ht c hc).1
    rw [List.cons_append, fraction, List.head?_cons, List.tail_cons, hdigits, if_pos ⟨rfl, hne⟩]

theorem exponent_append (hexp : IsExponent exp)
    (ht : ∀ c ∈ t.head?, c.isDigit = false ∧ c ≠ 'e' ∧ c ≠ 'E') : exponent (exp ++ t) = exp := by
  rcases hexp with rfl | ⟨e, sg, ds, rfl, he, hsg, hne, hds⟩
  · cases t with
    | nil => rfl
    | cons c t =>
      obtain ⟨-, hlower, hupper⟩ := ht c rfl
      simp [exponent, hlower, hupper]
  · have hdigits : digits (ds ++ t) = ds := digits_append hds fun c hc => (ht c hc).1
    -- The first digit is no sign.
    have hhead : (ds ++ t).head? ≠ some '+' ∧ (ds ++ t).head? ≠ some '-' := by
      cases ds with
      | nil => exact absurd rfl hne
      | cons d ds =>
        have hd := hds d (List.mem_cons_self ..)
        constructor <;>
        · rintro heq
          rw [List.cons_append, List.head?_cons, Option.some.injEq] at heq
          rw [heq] at hd
          cases hd
    rcases hsg with rfl | rfl | rfl
    · simp only [exponent, List.nil_append, List.cons_append, hhead, or_self, if_false,
        List.length_nil, List.drop_zero, hdigits, he, hne, ne_eq, not_false_eq_true, and_self,
        if_true]
    · simp [exponent, hdigits, he, hne]
    · simp [exponent, hdigits, he, hne]

/-- **A number** is read up to what ends it. -/
theorem scanNumber_append (hsg : sg = [] ∨ sg = ['-']) (hint : IsInt int) (hfrac : IsFraction frac)
    (hexp : IsExponent exp) (ht : EndsNumber t) :
    scanNumber py (sg ++ (int ++ (frac ++ (exp ++ t)))) = some
      (if frac = [] ∧ exp = [] then
        .int (if sg = [] then Nat.ofDigitChars 10 int 0 else -Nat.ofDigitChars 10 int 0)
      else .float (py.parse (sg ++ int ++ frac ++ exp)), t) := by
  have hexpHead : ∀ c ∈ (exp ++ t).head?, c.isDigit = false ∧ c ≠ '.' := by
    rcases hexp with rfl | ⟨e, sg, ds, rfl, rfl | rfl, -⟩
    · exact fun c hc => ⟨(ht c hc).1, (ht c hc).2.1⟩
    · simp
    · simp
  have hfracHead : ∀ c ∈ (frac ++ (exp ++ t)).head?, c.isDigit = false := by
    rcases hfrac with rfl | ⟨ds, rfl, -⟩
    · exact fun c hc => (hexpHead c hc).1
    · simp
  have hne : int ≠ [] := by
    obtain ⟨c, ds, rfl, -⟩ := hint
    exact List.cons_ne_nil _ _
  have hexpEnd : exponent (exp ++ t) = exp :=
    exponent_append hexp fun c hc => ⟨(ht c hc).1, (ht c hc).2.2⟩
  simp only [scanNumber, sign_append hsg hint, List.drop_left, intPart_append hint hfracHead,
    fraction_append hfrac hexpHead, hexpEnd, hne, if_false]
  split_ifs <;> rfl

theorem isInt_toDigits (n : ℕ) : IsInt (Nat.toDigits 10 n) := by
  induction n using Nat.strong_induction_on with
  | _ n ih =>
    rw [Nat.toDigits_eq_if (by decide)]
    split_ifs with hn
    · exact ⟨n.digitChar, [], rfl, by simpa using hn, nofun, fun _ => rfl⟩
    · obtain ⟨c, ds, heq, hc, hds, hzero⟩ := ih (n / 10) (by omega)
      have hlast : (n % 10).digitChar.isDigit := by simp [Nat.mod_lt]
      refine ⟨c, ds ++ [(n % 10).digitChar], by rw [heq, List.cons_append], hc, ?_, ?_⟩
      · intro d hd
        rcases List.mem_append.mp hd with hd | hd
        · exact hds d hd
        · exact List.mem_singleton.mp hd ▸ hlast
      · -- A number with a digit before the last one is not zero.
        intro h0
        exfalso
        have hvalue : Nat.ofDigitChars 10 (Nat.toDigits 10 (n / 10)) 0 = n / 10 := by simp
        rw [heq, hzero h0, h0] at hvalue
        have hdiv : 0 = n / 10 := hvalue
        omega

theorem scanNumber_intText (n : ℤ) (ht : EndsNumber t) :
    scanNumber py (intText n ++ t) = some (.int n, t) := by
  have hscan (sg : List Char) (hsg : sg = [] ∨ sg = ['-']) :=
    scanNumber_append py hsg (isInt_toDigits n.natAbs) (.inl rfl) (.inl rfl) ht
  rw [intText]
  split_ifs with hn
  · have hneg : -(n.natAbs : ℤ) = n := by omega
    have hminus := hscan ['-'] (.inr rfl)
    rw [Nat.ofDigitChars_ten_toDigits, if_neg (List.cons_ne_nil _ _), hneg] at hminus
    exact hminus
  · have hpos : (n.natAbs : ℤ) = n := by omega
    simpa [hpos] using hscan [] (.inl rfl)

theorem scanNumber_repr (x : F) (ht : EndsNumber t) :
    scanNumber py (py.repr x ++ t) = some (.float (.finite x), t) := by
  obtain ⟨sg, int, frac, exp, heq, hsg, hint, hfrac, hexp, hne⟩ := py.isFloat_repr x
  have hscan := scanNumber_append py hsg hint hfrac hexp ht
  rw [if_neg (by tauto), ← heq, py.parse_repr] at hscan
  simpa [heq] using hscan

end Numbers

/-! ### Reading texts -/

section Texts

variable {s t : List Char} {c : Char} {n : ℕ}

theorem scanHex_unicodeEscape (hn : n < 65536) (t : List Char) :
    scanHex ((unicodeEscape n).drop 2 ++ t) = some (n, t) := by
  have hvalue (m : ℕ) : Text.hexValue (Text.hexDigit (m % 16)) = some (.ofNat (m % 16)) :=
    Text.hexValue_hexDigit _ (Nat.mod_lt _ (by decide))
  simp only [unicodeEscape, List.drop_succ_cons, List.drop_zero, List.cons_append, List.nil_append,
    scanHex, hvalue, Option.bind_eq_bind, Option.bind_some, UInt8.toNat_ofNat', Option.pure_def]
  congr 2
  omega

/-- No character is a surrogate. -/
theorem toNat_lt_or (c : Char) : c.toNat < 0xD800 ∨ 0xE000 ≤ c.toNat ∧ c.toNat < 0x110000 := by
  have hvalid : c.toNat < 0xD800 ∨ 0xDFFF < c.toNat ∧ c.toNat < 0x110000 := c.valid
  omega

theorem scanUnicode_of_lt (hsmall : c.toNat < 0x10000) (t : List Char) :
    scanUnicode ((unicodeEscape c.toNat).drop 2 ++ t) = some (c, t) := by
  have hvalid := toNat_lt_or c
  have hhigh : ¬(0xD800 ≤ c.toNat ∧ c.toNat < 0xDC00) := by omega
  have hlow : ¬(0xDC00 ≤ c.toNat ∧ c.toNat < 0xE000) := by omega
  rw [scanUnicode, scanHex_unicodeEscape hsmall]
  simp [hhigh, hlow]

/-- A pair of surrogates is one character. -/
theorem scanUnicode_pair {high low : ℕ} (hhigh : 0xD800 ≤ high ∧ high < 0xDC00)
    (hlow : 0xDC00 ≤ low ∧ low < 0xE000) (t : List Char) :
    scanUnicode ((unicodeEscape high).drop 2 ++ (unicodeEscape low ++ t)) =
      some (Char.ofNat (0x10000 + (high - 0xD800) * 0x400 + (low - 0xDC00)), t) := by
  have htake : (unicodeEscape low ++ t).take 2 = ['\\', 'u'] := rfl
  have hdrop : (unicodeEscape low ++ t).drop 2 = (unicodeEscape low).drop 2 ++ t := rfl
  have hscan := scanHex_unicodeEscape (show low < 65536 by omega) t
  rw [scanUnicode, scanHex_unicodeEscape (by omega)]
  simp only [Option.bind_eq_bind, Option.bind_some, hhigh, and_self, if_true, htake, hdrop, hscan,
    hlow]

theorem scanUnicode_surrogates (hlarge : 0x10000 ≤ c.toNat) (t : List Char) :
    scanUnicode ((unicodeEscape (0xD800 + (c.toNat - 0x10000) / 0x400)).drop 2 ++
      (unicodeEscape (0xDC00 + (c.toNat - 0x10000) % 0x400) ++ t)) = some (c, t) := by
  have hvalid := toNat_lt_or c
  have hvalue : 0x10000 + (0xD800 + (c.toNat - 0x10000) / 0x400 - 0xD800) * 0x400 +
      (0xDC00 + (c.toNat - 0x10000) % 0x400 - 0xDC00) = c.toNat := by omega
  rw [scanUnicode_pair (by omega) (by omega), hvalue, Char.ofNat_toNat]

theorem scanChar_unicodeEscape (n : ℕ) (t : List Char) :
    scanChar (unicodeEscape n ++ t) = scanUnicode ((unicodeEscape n).drop 2 ++ t) := rfl

/-- An escaped character is read back. -/
theorem scanChar_escapeChar (c : Char) (t : List Char) :
    scanChar (escapeChar c ++ t) = some (c, t) := by
  rw [escapeChar]
  cases hfind : shortEscapes.find? fun p => p.2 = c with
  | some p =>
    have hmem := List.mem_of_find?_eq_some hfind
    have hc : p.2 = c := by simpa using List.find?_some hfind
    have hall : ∀ p ∈ shortEscapes, p.1 ≠ 'u' ∧ p.1 ≠ '/' ∧
        (shortEscapes.find? fun q => q.1 = p.1) = some p := by decide
    obtain ⟨hu, hslash, hback⟩ := hall p hmem
    simp [scanChar, hu, hslash, hback, hc]
  | none =>
    have hquote : c ≠ '\\' := by
      rintro rfl
      revert hfind
      decide
    simp only
    split_ifs with hprintable hsmall
    · have hcontrol : ¬c.toNat < 32 := by omega
      simp [scanChar, hquote, hcontrol]
    · rw [scanChar_unicodeEscape, scanUnicode_of_lt hsmall]
    · rw [List.append_assoc, scanChar_unicodeEscape, scanUnicode_surrogates (by omega)]

theorem head?_escapeChar (c : Char) (t : List Char) : (escapeChar c ++ t).head? ≠ some '"' := by
  rw [escapeChar]
  cases hfind : shortEscapes.find? fun p => p.2 = c with
  | some p => simp
  | none =>
    have hquote : c ≠ '"' := by
      rintro rfl
      revert hfind
      decide
    simp only
    split_ifs
    · simpa using hquote
    · simp [unicodeEscape]
    · simp [unicodeEscape]

/-- **An escaped text** is read up to its quote. -/
theorem scanString_escape {cs : List Char} (hn : cs.length < n) (t : List Char) :
    scanString n (cs.flatMap escapeChar ++ '"' :: t) = some (cs, t) := by
  induction cs generalizing n with
  | nil =>
    cases n with
    | zero => cases hn
    | succ n => rfl
  | cons c cs ih =>
    cases n with
    | zero => cases hn
    | succ n =>
      have hrest := ih (Nat.lt_of_succ_lt_succ hn)
      rw [List.flatMap_cons, List.append_assoc, scanString, if_neg (head?_escapeChar c _),
        scanChar_escapeChar]
      simp [hrest]

theorem length_le_flatMap_escapeChar (cs : List Char) :
    cs.length ≤ (cs.flatMap escapeChar).length := by
  induction cs with
  | nil => exact Nat.zero_le _
  | cons c cs ih =>
    have hpos : 0 < (escapeChar c).length := by
      rw [escapeChar]
      cases shortEscapes.find? fun p => p.2 = c with
      | some p => simp
      | none =>
        simp only
        split_ifs <;> simp [unicodeEscape]
    rw [List.flatMap_cons, List.length_append, List.length_cons]
    omega

/-- A text in quotes is read back. -/
theorem scanString_quote (s : String) (t : List Char) :
    scanString (quote s ++ t).length (quote s ++ t).tail = some (s.toList, t) := by
  have hlength := length_le_flatMap_escapeChar s.toList
  have htail : (quote s ++ t).tail = s.toList.flatMap escapeChar ++ '"' :: t := by simp [quote]
  rw [htail]
  refine scanString_escape ?_ t
  simp only [quote, List.length_append, List.length_cons]
  omega

end Texts

/-! ### Reading values -/

section Values

variable {s t : List Char} {v : JsonValue F} {n : ℕ}

theorem skip_of_head? (h : ∀ c ∈ s.head?, isBlank c = false) : skip s = s := by
  cases s with
  | nil => rfl
  | cons c s => simp [skip, h c rfl]

theorem skip_append {ws : List Char} (hws : ∀ c ∈ ws, isBlank c) (s : List Char) :
    skip (ws ++ s) = skip s :=
  List.dropWhile_append_of_pos hws

/-- What may follow a value: a separator or a closing bracket. -/
def EndsValue (t : List Char) : Prop := ∀ c ∈ t.head?, c = ',' ∨ c = ']' ∨ c = '\x7d'

theorem EndsValue.endsNumber (ht : EndsValue t) : EndsNumber t := by
  intro c hc
  rcases ht c hc with rfl | rfl | rfl <;> decide

theorem EndsValue.skip_eq (ht : EndsValue t) : skip t = t := by
  refine skip_of_head? fun c hc => ?_
  rcases ht c hc with rfl | rfl | rfl <;> decide

/-- A number is no word. -/
theorem scanAtom_number {sg int : List Char} (hsg : sg = [] ∨ sg = ['-']) (hint : IsInt int)
    (t : List Char) : scanAtom py (sg ++ (int ++ t)) = scanNumber py (sg ++ (int ++ t)) := by
  obtain ⟨c, ds, rfl, hc, -⟩ := hint
  have hword : ∀ c' ∈ ['n', 't', 'f', 'N', 'I', '-'], c' ≠ c := by
    rintro c' hc' rfl
    have hnot : ∀ c' ∈ ['n', 't', 'f', 'N', 'I', '-'], c'.isDigit = false :=
      Text.forall_mem_of_all rfl
    exact absurd hc (by simp [hnot c' hc'])
  have hfind :
      ((literals (F := F)).find? fun p => p.1.isPrefixOf (sg ++ (c :: ds ++ t))) = none := by
    rcases hsg with rfl | rfl <;> simp at hword <;> simp [literals, List.isPrefixOf, hword]
  rw [scanAtom, hfind]

theorem scanAtom_literal {w : List Char} (hmem : (w, v) ∈ literals (F := F)) (t : List Char) :
    scanAtom py (w ++ t) = some (v, t) := by
  simp only [literals, List.mem_cons, Prod.mk.injEq, List.not_mem_nil, or_false] at hmem
  obtain ⟨rfl, rfl⟩ | ⟨rfl, rfl⟩ | ⟨rfl, rfl⟩ | ⟨rfl, rfl⟩ | ⟨rfl, rfl⟩ | ⟨rfl, rfl⟩ := hmem <;>
    rfl

/-- The characters with which a value without parts starts. -/
def StartsAtom (c : Char) : Prop := c.isDigit ∨ c ∈ ['n', 't', 'f', 'N', 'I', '-']

theorem scanValue_atom {c : Char} (hc : StartsAtom c) (hs : s.head? = some c) :
    scanValue py (n + 1) s = scanAtom py s := by
  have hne : c ≠ '"' ∧ c ≠ '[' ∧ c ≠ '\x7b' := by
    rcases hc with hc | hc
    · refine ⟨?_, ?_, ?_⟩ <;>
      · rintro rfl
        cases hc
    · have hall : ∀ c ∈ ['n', 't', 'f', 'N', 'I', '-'], c ≠ '"' ∧ c ≠ '[' ∧ c ≠ '\x7b' :=
        Text.forall_mem_of_all rfl
      exact hall c hc
  simp [scanValue, hs, hne]

/-- A text is that of a value without parts. -/
structure IsAtom (w : List Char) (v : JsonValue F) : Prop where
  starts : ∃ c, w.head? = some c ∧ StartsAtom c
  scan : ∀ t, EndsValue t → scanAtom py (w ++ t) = some (v, t)

theorem isAtom_literal {w : List Char} (hmem : (w, v) ∈ literals (F := F)) : IsAtom py w v where
  starts := by
    simp only [literals, List.mem_cons, Prod.mk.injEq, List.not_mem_nil, or_false] at hmem
    obtain ⟨rfl, -⟩ | ⟨rfl, -⟩ | ⟨rfl, -⟩ | ⟨rfl, -⟩ | ⟨rfl, -⟩ | ⟨rfl, -⟩ := hmem <;>
      exact ⟨_, rfl, .inr (by decide)⟩
  scan t _ := scanAtom_literal py hmem t

theorem starts_number {sg int : List Char} (hsg : sg = [] ∨ sg = ['-']) (hint : IsInt int)
    (t : List Char) : ∃ c, (sg ++ (int ++ t)).head? = some c ∧ StartsAtom c := by
  rcases hsg with rfl | rfl
  · obtain ⟨c, hc, hdigit⟩ := head?_of_isInt hint t
    exact ⟨c, hc, .inl hdigit⟩
  · exact ⟨'-', rfl, .inr (by decide)⟩

theorem intText_eq (n : ℤ) : ∃ sg, (sg = [] ∨ sg = ['-']) ∧
    intText n = sg ++ (Nat.toDigits 10 n.natAbs ++ []) := by
  rw [intText]
  split_ifs
  · exact ⟨['-'], .inr rfl, by simp⟩
  · exact ⟨[], .inl rfl, by simp⟩

theorem isAtom_int (n : ℤ) : IsAtom py (intText n) (.int n) := by
  obtain ⟨sg, hsg, heq⟩ := intText_eq n
  have hint := isInt_toDigits n.natAbs
  refine ⟨heq ▸ starts_number hsg hint [], fun t ht => ?_⟩
  have hatom := scanAtom_number py hsg hint t
  rw [← scanNumber_intText py n ht.endsNumber, heq]
  simpa using hatom

theorem isAtom_repr (x : F) : IsAtom py (py.repr x) (.float (.finite x)) := by
  obtain ⟨sg, int, frac, exp, heq, hsg, hint, -⟩ := py.isFloat_repr x
  have heq' : py.repr x = sg ++ (int ++ (frac ++ exp)) := by simp [heq]
  refine ⟨heq' ▸ starts_number hsg hint _, fun t ht => ?_⟩
  have hatom := scanAtom_number py hsg hint (frac ++ exp ++ t)
  rw [← scanNumber_repr py x ht.endsNumber, heq']
  simpa using hatom

theorem isAtom_float (x : PyFloat F) : IsAtom py (floatText py x) (.float x) := by
  cases x with
  | finite x => exact isAtom_repr py x
  | inf => exact isAtom_literal py (w := "Infinity".toList) (by simp [literals])
  | negInf => exact isAtom_literal py (w := "-Infinity".toList) (by simp [literals])
  | nan => exact isAtom_literal py (w := "NaN".toList) (by simp [literals])

theorem IsAtom.scanValue {w : List Char} (hw : IsAtom py w v) (ht : EndsValue t) :
    scanValue py (n + 1) (w ++ t) = some (v, t) := by
  obtain ⟨c, hhead, hc⟩ := hw.starts
  rw [scanValue_atom py hc (by rw [List.head?_append, hhead]; rfl), hw.scan t ht]

end Values

section Write

variable (sep : Separators) {t : List Char} {v : JsonValue F}

theorem isAtom_null : IsAtom py (write py sep .null) .null :=
  isAtom_literal py (by simp [literals, write])

theorem isAtom_bool (b : Bool) : IsAtom py (write py sep (.bool b)) (.bool b) := by
  cases b <;> exact isAtom_literal py (by simp [literals, write])

/-- A value does not start like the end of a list, nor with white space. -/
theorem head?_write (v : JsonValue F) : ∃ c, (write py sep v).head? = some c ∧
    isBlank c = false ∧ c ≠ ']' ∧ c ≠ '\x7d' := by
  have hatom {w : List Char} {v : JsonValue F} (hw : IsAtom py w v) :
      ∃ c, w.head? = some c ∧ isBlank c = false ∧ c ≠ ']' ∧ c ≠ '\x7d' := by
    obtain ⟨c, hhead, hc⟩ := hw.starts
    refine ⟨c, hhead, ?_⟩
    rcases hc with hc | hc
    · have hall : ∀ c ∈ [' ', '\t', '\n', '\r', ']', '\x7d'], c.isDigit = false :=
        Text.forall_mem_of_all rfl
      have hne : ∀ c' ∈ [' ', '\t', '\n', '\r', ']', '\x7d'], c ≠ c' := by
        rintro c' hc' rfl
        exact absurd hc (by simp [hall c hc'])
      simp only [List.forall_mem_cons] at hne
      simp [isBlank, hne]
    · have hall : ∀ c ∈ ['n', 't', 'f', 'N', 'I', '-'],
          isBlank c = false ∧ c ≠ ']' ∧ c ≠ '\x7d' := Text.forall_mem_of_all rfl
      exact hall c hc
  have hchar {c : Char} {s : List Char} (hc : isBlank c = false ∧ c ≠ ']' ∧ c ≠ '\x7d') :
      ∃ c', (c :: s).head? = some c' ∧ isBlank c' = false ∧ c' ≠ ']' ∧ c' ≠ '\x7d' :=
    ⟨c, rfl, hc⟩
  match v with
  | .null => exact hatom (isAtom_null py sep)
  | .bool b => exact hatom (isAtom_bool py sep b)
  | .int n => exact hatom (isAtom_int py n)
  | .float x => exact hatom (isAtom_float py x)
  | .str s => exact hchar (by decide)
  | .list [] => exact hchar (by decide)
  | .list (v :: vs) => exact hchar (by decide)
  | .dict [] => exact hchar (by decide)
  | .dict ((key, v) :: fs) => exact hchar (by decide)

/-- White space before a value is skipped. -/
theorem skip_write (ws : List Char) (hws : ∀ c ∈ ws, isBlank c) (v : JsonValue F) (t : List Char) :
    skip (ws ++ (write py sep v ++ t)) = write py sep v ++ t := by
  obtain ⟨c, hhead, hblank, -⟩ := head?_write py sep v
  rw [skip_append hws, skip_of_head?]
  intro c' hc'
  rw [List.head?_append, hhead] at hc'
  exact Option.some.inj hc' ▸ hblank

theorem skip_quote (ws : List Char) (hws : ∀ c ∈ ws, isBlank c) (s : String) (t : List Char) :
    skip (ws ++ (quote s ++ t)) = quote s ++ t := by
  rw [skip_append hws, skip_of_head?]
  rintro c ⟨⟩
  rfl

theorem endsValue_writeItems (vs : List (JsonValue F)) (t : List Char) :
    EndsValue (writeItems py sep vs ++ t) := by
  cases vs with
  | nil => rintro c ⟨⟩; exact .inr (.inl rfl)
  | cons v vs => rintro c ⟨⟩; exact .inl rfl

theorem endsValue_writeFields (fs : List (String × JsonValue F)) (t : List Char) :
    EndsValue (writeFields py sep fs ++ t) := by
  cases fs with
  | nil => rintro c ⟨⟩; exact .inr (.inr rfl)
  | cons f fs => rintro c ⟨⟩; exact .inl rfl

theorem length_pos_write (v : JsonValue F) : 0 < (write py sep v).length := by
  obtain ⟨c, hhead, -⟩ := head?_write py sep v
  exact List.length_pos_of_mem (List.mem_of_mem_head? hhead)

/-- A value is read back, with as much fuel as its text is long. -/
def ReadsValue (n : ℕ) : Prop := ∀ v t, (write py sep v).length ≤ n → EndsValue t →
  scanValue py n (write py sep v ++ t) = some (v, t)

/-- So are the items of a list. -/
def ReadsItems (n : ℕ) : Prop := ∀ v vs t, (write py sep v ++ writeItems py sep vs).length ≤ n →
  scanItems py n (write py sep v ++ writeItems py sep vs ++ t) = some (v :: vs, t)

/-- So are the fields of an object. -/
def ReadsFields (n : ℕ) : Prop := ∀ key v fs t,
  (quote key ++ ':' :: (sep.key ++ write py sep v) ++ writeFields py sep fs).length ≤ n →
    scanFields py n
        (quote key ++ ':' :: (sep.key ++ write py sep v) ++ writeFields py sep fs ++ t) =
      some ((key, v) :: fs, t)

theorem scanItems_eq {n : ℕ} {s s' : List Char} (h : scanValue py n s = some (v, s')) :
    scanItems py (n + 1) s =
      if (skip s').head? = some ',' then
        (scanItems py n (skip (skip s').tail)).map fun p => (v :: p.1, p.2)
      else if (skip s').head? = some ']' then some ([v], (skip s').tail)
      else none := by
  rw [scanItems, h]
  cases hitems : scanItems py n (skip (skip s').tail) <;> simp [hitems]

theorem scanFields_eq {n : ℕ} {key : String} {s s' : List Char}
    (h : scanValue py n (skip s) = some (v, s')) :
    scanFields py (n + 1) (quote key ++ ':' :: s) =
      if (skip s').head? = some ',' then
        (scanFields py n (skip (skip s').tail)).map fun p => ((key, v) :: p.1, p.2)
      else if (skip s').head? = some '\x7d' then some ([(key, v)], (skip s').tail)
      else none := by
  have hhead : (quote key ++ ':' :: s).head? = some '"' := rfl
  have hcolon : skip (':' :: s) = ':' :: s := skip_of_head? (by rintro c ⟨⟩; rfl)
  rw [scanFields, if_pos hhead, scanString_quote]
  simp only [Option.bind_eq_bind, Option.bind_some, hcolon, List.head?_cons, if_true,
    List.tail_cons, h, String.ofList_toList]
  cases hfields : scanFields py n (skip (skip s').tail) <;> simp

theorem readsItems_succ {n : ℕ} (hvalue : ReadsValue py sep n) (hitems : ReadsItems py sep n) :
    ReadsItems py sep (n + 1) := by
  intro v vs t hn
  have hpos := length_pos_write py sep v
  have hends := endsValue_writeItems py sep vs t
  rw [List.length_append] at hn
  cases vs with
  | nil =>
    have hscan := hvalue v (']' :: t) (by simpa [writeItems] using hn) hends
    rw [List.append_assoc]
    change scanItems py (n + 1) (write py sep v ++ ']' :: t) = _
    rw [scanItems_eq py hscan]
    rfl
  | cons w vs =>
    rw [writeItems, List.length_append, List.length_cons, List.length_append] at hn
    have hscan := hvalue v _ (by omega) hends
    have hrest := hitems w vs t (by rw [List.length_append]; omega)
    have htail : (writeItems py sep (w :: vs) ++ t).tail =
        sep.item ++ (write py sep w ++ (writeItems py sep vs ++ t)) := by simp [writeItems]
    have hhead : (writeItems py sep (w :: vs) ++ t).head? = some ',' := rfl
    rw [List.append_assoc, scanItems_eq py hscan, hends.skip_eq, if_pos hhead, htail,
      skip_write py sep sep.item sep.isBlank_item, ← List.append_assoc, hrest]
    rfl

theorem readsFields_succ {n : ℕ} (hvalue : ReadsValue py sep n) (hfields : ReadsFields py sep n) :
    ReadsFields py sep (n + 1) := by
  intro key v fs t hn
  have hquote : 0 < (quote key).length := Nat.succ_pos _
  have hends := endsValue_writeFields py sep fs t
  have hskip := skip_write py sep sep.key sep.isBlank_key v (writeFields py sep fs ++ t)
  simp only [List.length_append, List.length_cons] at hn
  have hscan := hvalue v _ (by omega) hends
  rw [← hskip] at hscan
  have htext : quote key ++ ':' :: (sep.key ++ write py sep v) ++ writeFields py sep fs ++ t =
      quote key ++ ':' :: (sep.key ++ (write py sep v ++ (writeFields py sep fs ++ t))) := by simp
  rw [htext, scanFields_eq py hscan, hends.skip_eq]
  cases fs with
  | nil => rfl
  | cons f fs =>
    obtain ⟨key', w⟩ := f
    simp only [writeFields, List.length_append, List.length_cons] at hn
    have hrest := hfields key' w fs t (by simp only [List.length_append, List.length_cons]; omega)
    have htail : (writeFields py sep ((key', w) :: fs) ++ t).tail = sep.item ++ (quote key' ++
        (':' :: (sep.key ++ write py sep w) ++ (writeFields py sep fs ++ t))) := by
      simp [writeFields]
    have hhead : (writeFields py sep ((key', w) :: fs) ++ t).head? = some ',' := rfl
    rw [if_pos hhead, htail, skip_quote sep.item sep.isBlank_item, ← List.append_assoc,
      ← List.append_assoc, hrest]
    rfl

theorem scanValue_bracket {n : ℕ} {s : List Char} (hs : (skip s).head? ≠ some ']') :
    scanValue py (n + 1) ('[' :: s) =
      (scanItems py n (skip s)).map fun p => (.list p.1, p.2) := by
  simp only [scanValue, List.head?_cons, Option.some.injEq, Char.reduceEq, if_false, if_true,
    List.tail_cons, hs]
  cases scanItems py n (skip s) <;> rfl

theorem scanValue_brace {n : ℕ} {s : List Char} (hs : (skip s).head? ≠ some '\x7d') :
    scanValue py (n + 1) ('\x7b' :: s) =
      (scanFields py n (skip s)).map fun p => (.dict p.1, p.2) := by
  simp only [scanValue, List.head?_cons, Option.some.injEq, Char.reduceEq, if_false, if_true,
    List.tail_cons, hs]
  cases scanFields py n (skip s) <;> rfl

theorem readsValue_succ {n : ℕ} (hitems : ReadsItems py sep n) (hfields : ReadsFields py sep n) :
    ReadsValue py sep (n + 1) := by
  intro v t hn ht
  match v with
  | .null => exact (isAtom_null py sep).scanValue py ht
  | .bool b => exact (isAtom_bool py sep b).scanValue py ht
  | .int m => exact (isAtom_int py m).scanValue py ht
  | .float x => exact (isAtom_float py x).scanValue py ht
  | .str s =>
    have hhead : (quote s ++ t).head? = some '"' := rfl
    rw [write, scanValue, if_pos hhead, scanString_quote]
    simp
  | .list [] => rfl
  | .list (v :: vs) =>
    have hskip := skip_write py sep [] nofun v (writeItems py sep vs ++ t)
    rw [List.nil_append] at hskip
    obtain ⟨c, hhead, -, hbracket, -⟩ := head?_write py sep v
    have hopen : (skip (write py sep v ++ (writeItems py sep vs ++ t))).head? ≠ some ']' := by
      rw [hskip, List.head?_append, hhead]
      simpa using hbracket
    have hrest := hitems v vs t (by simpa [write] using hn)
    rw [write, List.cons_append, List.append_assoc, scanValue_bracket py hopen, hskip,
      ← List.append_assoc, hrest]
    rfl
  | .dict [] => rfl
  | .dict ((key, v) :: fs) =>
    have hskip := skip_quote [] nofun key
      (':' :: (sep.key ++ write py sep v) ++ (writeFields py sep fs ++ t))
    rw [List.nil_append] at hskip
    have hopen : (skip (quote key ++ (':' :: (sep.key ++ write py sep v) ++
        (writeFields py sep fs ++ t)))).head? ≠ some '\x7d' := by
      rw [hskip]
      rintro ⟨⟩
    have hrest := hfields key v fs t (by simp [write] at hn ⊢; omega)
    rw [List.append_assoc, List.append_assoc] at hrest
    rw [write, List.cons_append, List.append_assoc, List.append_assoc, scanValue_brace py hopen,
      hskip, hrest]
    rfl

/-- Values, items and fields are read back with as much fuel as their texts are long. -/
theorem reads (n : ℕ) :
    ReadsValue py sep n ∧ ReadsItems py sep n ∧ ReadsFields py sep n := by
  induction n with
  | zero =>
    refine ⟨fun v t hn => ?_, fun v vs t hn => ?_, fun key v fs t hn => ?_⟩
    · have hpos := length_pos_write py sep v
      omega
    · have hpos := length_pos_write py sep v
      rw [List.length_append] at hn
      omega
    · simp at hn
  | succ n ih =>
    obtain ⟨hvalue, hitems, hfields⟩ := ih
    exact ⟨readsValue_succ py sep hitems hfields, readsItems_succ py sep hvalue hitems,
      readsFields_succ py sep hvalue hfields⟩

/-- **What was written is read again.** -/
theorem loads_dumps (v : JsonValue F) : loads py (dumps py sep v) = some v := by
  have hskip := skip_write py sep [] nofun v []
  rw [List.nil_append, List.append_nil] at hskip
  have hread := (reads py sep (write py sep v).length).1 v [] le_rfl nofun
  rw [List.append_nil] at hread
  rw [loads, dumps, String.toList_ofList, hskip, hread]
  rfl

end Write

end JsonText

end Nodeglow
