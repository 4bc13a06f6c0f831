import Mathlib.Tactic.IntervalCases
import Nodeglow.Foundation.Calendar
import Nodeglow.Foundation.Regex
import Nodeglow.Foundation.Text

/-!
# Reading a date and time with a format

Python's `datetime.strptime` makes a regular expression of the format, without regard to case: a
directive becomes a group with the texts of its field, and white space becomes any white space. The
whole text has to match. Without a directive for the year it is 1900.

## Main definitions

* `Directive`, `Item`, `items` — a format.
* `strptime`.

## Main results

* `firstMatch_month`, `firstMatch_day`, `firstMatch_hour`, `firstMatch_minute`,
  `firstMatch_second` — the fields of a text.

The directives are those of the month, the day and the time of day.
-/

namespace Nodeglow.Strptime

open Calendar (DateTime)

inductive Directive
  /-- `%b` -/
  | month
  /-- `%d` -/
  | day
  /-- `%H` -/
  | hour
  /-- `%M` -/
  | minute
  /-- `%S` -/
  | second
  deriving DecidableEq, Repr

/-- A part of a format. -/
inductive Item
  | directive (d : Directive)
  | spaces
  | literal (c : Char)
  deriving DecidableEq, Repr

/-- The directive of a letter. -/
def directive? : Char → Option Directive
  | 'b' => some .month
  | 'd' => some .day
  | 'H' => some .hour
  | 'M' => some .minute
  | 'S' => some .second
  | _ => none

/-- White space before the other parts. -/
def consSpaces : List Item → List Item
  | .spaces :: l => .spaces :: l
  | l => .spaces :: l

/-- The parts of a format; `none` is a `ValueError`. -/
def items : List Char → Option (List Item)
  | [] => some []
  | ['%'] => none
  | '%' :: c :: cs => (directive? c).bind fun d => (items cs).map (.directive d :: ·)
  | c :: cs =>
    if Text.isSpace c then (items cs).map consSpaces else (items cs).map (.literal c :: ·)

/-- The abbreviated names of the months. -/
def monthNames : List String :=
  ["Jan", "Feb", "Mar", "Apr", "May", "Jun", "Jul", "Aug", "Sep", "Oct", "Nov", "Dec"]

/-! ### The regular expression -/

/-- One character of a class. -/
def one (p : Char → Bool) : Regex := .chars p 1 (some 1) true

/-- A given character, in either case. -/
def ignoreCase (c : Char) : Regex := one fun d => d.toLower = c.toLower

/-- A character of a range. -/
def range (low high : Char) (c : Char) : Bool := low ≤ c && c ≤ high

/-- Two characters. -/
def pair (p q : Char → Bool) : Regex := .seq (one p) (one q)

/-- The texts of a field. -/
def Directive.re : Directive → Regex
  | .month => .oneOf (monthNames.map fun name => .concat (name.toList.map ignoreCase))
  | .day => .oneOf [pair (· = '3') (range '0' '1'), pair (range '1' '2') Text.isDecimal,
      pair (· = '0') (range '1' '9'), one (range '1' '9'), pair (· = ' ') (range '1' '9')]
  | .hour => .oneOf [pair (· = '2') (range '0' '3'), pair (range '0' '1') Text.isDecimal,
      one Text.isDecimal]
  | .minute => .oneOf [pair (range '0' '5') Text.isDecimal, one Text.isDecimal]
  | .second => .oneOf [pair (· = '6') (range '0' '1'), pair (range '0' '5') Text.isDecimal,
      one Text.isDecimal]

def Item.re : Item → Regex
  | .directive d => .group d.re
  | .spaces => .chars Text.isSpace 1 none true
  | .literal c => ignoreCase c

/-- The regular expression of a format. -/
def formatRe (l : List Item) : Regex := .concat (l.map Item.re)

/-! ### The fields -/

structure Fields where
  month : ℕ := 1
  day : ℕ := 1
  hour : ℕ := 0
  minute : ℕ := 0
  second : ℕ := 0

/-- `int`, of digits after white space. -/
def readInt (text : List Char) : ℕ := Text.decimalInt (text.dropWhile Text.isSpace)

/-- The month of a name; `none` is a `ValueError`. -/
def readMonth (text : List Char) : Option ℕ :=
  (monthNames.findIdx? fun name => name.toList.map Char.toLower = text.map Char.toLower).map (· + 1)

/-- The fields with the text of a directive. -/
def Fields.set (f : Fields) (text : List Char) : Directive → Option Fields
  | .month => (readMonth text).map fun n => { f with month := n }
  | .day => some { f with day := readInt text }
  | .hour => some { f with hour := readInt text }
  | .minute => some { f with minute := readInt text }
  | .second => some { f with second := readInt text }

/-- The directives of a format. -/
def directives (l : List Item) : List Directive :=
  l.filterMap fun
    | .directive d => some d
    | _ => none

/-- `datetime.strptime`; `none` is a `ValueError`. -/
def strptime (text fmt : String) : Option DateTime := do
  let l ← items fmt.toList
  let (groups, rest) ← (formatRe l).firstMatch text.toList
  -- Unconverted data remains.
  if rest ≠ [] then none
  else
    let f ← ((directives l).zip groups).foldlM (fun f (d, text) => f.set text d) ({} : Fields)
    DateTime.make 1900 f.month f.day f.hour f.minute f.second

/-! ### The texts of the fields -/

/-- Two digits. -/
def two (n : ℕ) : List Char := [Nat.digitChar (n / 10), Nat.digitChar (n % 10)]

/-- One or two digits. -/
def digits (n : ℕ) : List Char := if n < 10 then [Nat.digitChar n] else two n

/-- The name of a month. -/
def monthName (m : ℕ) : List Char := (monthNames.getD (m - 1) "").toList

section

variable {p q : Char → Bool} {r r' : Regex} {c d : Char} {b s : List Char} {n m : ℕ}
  {x : List (List Char) × List Char}

theorem firstMatch_one (h : p c = true) : (one p).firstMatch (c :: b) = some ([], b) :=
  Regex.firstMatch_chars (a := [c]) (by simpa using h) le_rfl (by simp) (.inl rfl)

theorem allMatches_one_eq_nil (h : p c = false) : (one p).allMatches (c :: b) = [] := by
  simp [one, Regex.allMatches, Regex.rests, h]

theorem allMatches_one (h : p c = true) : (one p).allMatches (c :: b) = [([], b)] := by
  have hrests : Regex.rests p true 0 (some 0) b = [b] := by cases b <;> simp [Regex.rests]
  simp [one, Regex.allMatches, Regex.rests, h, hrests]

theorem firstMatch_pair (hc : p c = true) (hd : q d = true) :
    (pair p q).firstMatch (c :: d :: b) = some ([], b) :=
  Regex.firstMatch_seq (firstMatch_one hc) (firstMatch_one hd)

theorem allMatches_pair_eq_nil (h : p c = false ∨ q d = false) :
    (pair p q).allMatches (c :: d :: b) = [] := by
  rcases hp : p c with _ | _
  · exact Regex.allMatches_seq_eq_nil (allMatches_one_eq_nil hp) _
  · have hq : q d = false := h.resolve_left (by rw [hp]; decide)
    rw [pair, Regex.allMatches, allMatches_one hp]
    simp only [List.flatMap_cons, List.flatMap_nil, allMatches_one_eq_nil hq]
    rfl

/-- The first alternative that matches. -/
theorem firstMatch_oneOf (rs : List Regex) {rs' : List Regex} (hrs : ∀ r ∈ rs, r.allMatches s = [])
    (hr : r.firstMatch s = some x) : (Regex.oneOf (rs ++ r :: rs')).firstMatch s = some x := by
  induction rs with
  | nil =>
    cases rs' with
    | nil => exact hr
    | cons r' rs' =>
      rw [Regex.firstMatch] at hr
      rw [List.nil_append, Regex.oneOf, Regex.firstMatch, Regex.allMatches, List.head?_append, hr]
      · rfl
      · simp
  | cons r₀ rs ih =>
    obtain ⟨hnone, hrs⟩ := List.forall_mem_cons.mp hrs
    have hmore := ih hrs
    rw [Regex.firstMatch] at hmore
    rw [List.cons_append, Regex.oneOf, Regex.firstMatch, Regex.allMatches, hnone, List.nil_append,
      hmore]
    simp

theorem firstMatch_ignoreCase {t : List Char} (hne : s ≠ [])
    (h : s.map Char.toLower = t.map Char.toLower) :
    (Regex.concat (s.map ignoreCase)).firstMatch (t ++ b) = some ([], b) := by
  induction s generalizing t with
  | nil => exact absurd rfl hne
  | cons c s ih =>
    cases t with
    | nil => cases h
    | cons d t =>
      obtain ⟨hhead, htail⟩ := List.cons.inj h
      have hone : (ignoreCase c).firstMatch (d :: (t ++ b)) = some ([], t ++ b) :=
        firstMatch_one (decide_eq_true hhead.symm)
      cases s with
      | nil =>
        obtain rfl : t = [] := List.map_eq_nil_iff.mp htail.symm
        exact hone
      | cons c' s => exact Regex.firstMatch_seq hone (ih (List.cons_ne_nil _ _) htail)

theorem allMatches_ignoreCase_eq_nil {t : List Char} (hlength : s.length = t.length)
    (h : s.map Char.toLower ≠ t.map Char.toLower) :
    (Regex.concat (s.map ignoreCase)).allMatches (t ++ b) = [] := by
  induction s generalizing t with
  | nil => exact absurd (by rw [List.length_eq_zero_iff.mp hlength.symm]) h
  | cons c s ih =>
    cases t with
    | nil => cases hlength
    | cons d t =>
      have hlength : s.length = t.length := Nat.succ.inj hlength
      by_cases hhead : d.toLower = c.toLower
      · have htail : s.map Char.toLower ≠ t.map Char.toLower := by
          intro htail
          exact h (by rw [List.map_cons, List.map_cons, hhead, htail])
        cases s with
        | nil => exact absurd (by rw [List.length_eq_zero_iff.mp hlength.symm]) htail
        | cons c' s =>
          have hone : (ignoreCase c).allMatches (d :: (t ++ b)) = [([], t ++ b)] :=
            allMatches_one (decide_eq_true hhead)
          rw [List.map_cons, List.map_cons, Regex.concat, List.cons_append, Regex.allMatches, hone,
            List.flatMap_singleton, ← List.map_cons, ih hlength htail]
          · rfl
          · simp
      · have hone : (ignoreCase c).allMatches (d :: (t ++ b)) = [] :=
          allMatches_one_eq_nil (decide_eq_false hhead)
        cases s with
        | nil => exact hone
        | cons c' s => exact Regex.allMatches_seq_eq_nil hone _

/-- The names of the months have three letters, and differ in any case. -/
theorem monthNames_spec : ∀ m ≤ 12, 1 ≤ m →
    (monthNames = monthNames.take (m - 1) ++ monthNames.getD (m - 1) "" :: monthNames.drop m ∧
      monthName m ≠ []) ∧
      ∀ name ∈ monthNames.take (m - 1), name.toList.length = (monthName m).length ∧
        name.toList.map Char.toLower ≠ (monthName m).map Char.toLower := by
  decide

theorem firstMatch_month (hlow : 1 ≤ m) (hhigh : m ≤ 12) :
    Directive.month.re.firstMatch (monthName m ++ b) = some ([], b) := by
  obtain ⟨⟨hsplit, hne⟩, hbefore⟩ := monthNames_spec m hhigh hlow
  rw [Directive.re, hsplit, List.map_append, List.map_cons]
  refine firstMatch_oneOf _ (fun r hr => ?_) (firstMatch_ignoreCase hne rfl)
  obtain ⟨name, hname, rfl⟩ := List.mem_map.mp hr
  exact allMatches_ignoreCase_eq_nil (hbefore name hname).1 (hbefore name hname).2

theorem firstMatch_hour (hn : n < 24) :
    Directive.hour.re.firstMatch (two n ++ b) = some ([], b) := by
  have hdecimal : ∀ n < 24, Text.isDecimal (Nat.digitChar (n % 10)) = true := by decide
  rcases Nat.lt_or_ge n 20 with hlt | hge
  · have hfirst : ∀ n < 20, decide (Nat.digitChar (n / 10) = '2') = false ∧
        range '0' '1' (Nat.digitChar (n / 10)) = true := by decide
    refine firstMatch_oneOf [_] (List.forall_mem_singleton.mpr ?_) ?_
    · exact allMatches_pair_eq_nil (.inl (hfirst n hlt).1)
    · exact firstMatch_pair (hfirst n hlt).2 (hdecimal n hn)
  · have hfirst : ∀ n < 24, 20 ≤ n → decide (Nat.digitChar (n / 10) = '2') = true ∧
        range '0' '3' (Nat.digitChar (n % 10)) = true := by decide
    exact firstMatch_oneOf [] nofun (firstMatch_pair (hfirst n hn hge).1 (hfirst n hn hge).2)

/-- The digits of a number below 60. -/
theorem sixty_digits : ∀ n < 60, (range '0' '5' (Nat.digitChar (n / 10)) = true ∧
    decide (Nat.digitChar (n / 10) = '6') = false) ∧
      Text.isDecimal (Nat.digitChar (n % 10)) = true := by
  decide

theorem firstMatch_minute (hn : n < 60) :
    Directive.minute.re.firstMatch (two n ++ b) = some ([], b) :=
  firstMatch_oneOf [] nofun (firstMatch_pair (sixty_digits n hn).1.1 (sixty_digits n hn).2)

theorem firstMatch_second (hn : n < 60) :
    Directive.second.re.firstMatch (two n ++ b) = some ([], b) := by
  refine firstMatch_oneOf [_] (List.forall_mem_singleton.mpr ?_) ?_
  · exact allMatches_pair_eq_nil (.inl (sixty_digits n hn).1.2)
  · exact firstMatch_pair (sixty_digits n hn).1.1 (sixty_digits n hn).2

/-- A day without a zero in front, before a space. -/
theorem firstMatch_day (hlow : 1 ≤ n) (hhigh : n ≤ 31) :
    Directive.day.re.firstMatch (digits n ++ ' ' :: b) = some ([], ' ' :: b) := by
  have hspace : range '0' '1' ' ' = false ∧ Text.isDecimal ' ' = false := by decide
  rcases Nat.lt_or_ge n 10 with hone | htwo
  · rw [digits, if_pos hone]
    have hfirst : ∀ n < 10, 1 ≤ n → decide (Nat.digitChar n = '0') = false ∧
        range '1' '9' (Nat.digitChar n) = true := by decide
    refine firstMatch_oneOf [_, _, _] ?_ (firstMatch_one (hfirst n hone hlow).2)
    simp only [List.forall_mem_cons, List.not_mem_nil, false_imp_iff, implies_true, and_true]
    exact ⟨allMatches_pair_eq_nil (.inr hspace.1), allMatches_pair_eq_nil (.inr hspace.2),
      allMatches_pair_eq_nil (.inl (hfirst n hone hlow).1)⟩
  · rw [digits, if_neg (not_lt.mpr htwo)]
    rcases Nat.lt_or_ge n 30 with hlt | hge
    · have hfirst : ∀ n < 30, 10 ≤ n → (decide (Nat.digitChar (n / 10) = '3') = false ∧
          range '1' '2' (Nat.digitChar (n / 10)) = true) ∧
            Text.isDecimal (Nat.digitChar (n % 10)) = true := by decide
      have hn := hfirst n hlt htwo
      refine firstMatch_oneOf [_] (List.forall_mem_singleton.mpr ?_) ?_
      · exact allMatches_pair_eq_nil (.inl hn.1.1)
      · exact firstMatch_pair hn.1.2 hn.2
    · have hfirst : ∀ n ≤ 31, 30 ≤ n → decide (Nat.digitChar (n / 10) = '3') = true ∧
          range '0' '1' (Nat.digitChar (n % 10)) = true := by decide
      have hn := hfirst n hhigh hge
      exact firstMatch_oneOf [] nofun (firstMatch_pair hn.1 hn.2)

/-! ### Their values -/

theorem readMonth_monthName (hlow : 1 ≤ m) (hhigh : m ≤ 12) :
    readMonth (monthName m) = some m := by
  interval_cases m <;> rfl

theorem readInt_two : ∀ n < 60, readInt (two n) = n := by decide

theorem readInt_digits : ∀ n ≤ 31, readInt (digits n) = n := by decide

end

end Nodeglow.Strptime
