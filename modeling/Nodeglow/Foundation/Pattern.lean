import Nodeglow.Foundation.RegexSearch

/-!
# Patterns that look around

A pattern may also ask for what stands before a place and after it: the end of a word, the start of
a line, a character that is not there, a text that does not follow. Its groups have names. A match
is told as the texts that it is made of, each with the group that captured it. The matches are in
the order in which a backtracking matcher finds them, which returns the first.

A substitution goes through the places of a text from the left. It keeps the characters outside the
matches, and continues after a match.

## Main definitions

* `Pattern`, `Pattern.allMatches`, `Pattern.firstMatch`.
* `Pattern.sub` — the substitution, with any result for a character and for a match.
* `Pattern.Leaves` — the rests that a match can leave.

## Main results

* `Pattern.eq_append_of_mem` — a match is made of the text that it matches.
* `Pattern.leaves_seq` and its like — what a match can leave, by the form of the pattern.
* `Pattern.subFrom_of_firstMatch`, `Pattern.subFrom_of_none` — one step of a substitution.
-/

namespace Nodeglow

universe u v

/-- A text that a match is made of, with the group that captured it. -/
structure Captured (γ : Type u) where
  group : Option γ
  text : List Char

/-- The text of a match. -/
def Captured.texts {γ : Type u} (m : List (Captured γ)) : List Char := m.flatMap Captured.text

/-- A pattern with groups that are named by `γ`. Its repetitions are greedy. -/
inductive Pattern (γ : Type u)
  /-- At least `min` and at most `max` characters of a class. -/
  | chars (p : Char → Bool) (min : ℕ) (max : Option ℕ)
  | seq (r r' : Pattern γ)
  /-- The first pattern, or the second. -/
  | alt (r r' : Pattern γ)
  | star (r : Pattern γ)
  | opt (r : Pattern γ)
  | group (k : γ) (r : Pattern γ)
  /-- No character of a class stands before. -/
  | notBehind (p : Char → Bool)
  /-- The pattern does not match what follows. -/
  | notAhead (r : Pattern γ)
  /-- Either what stands before or what follows is a character of a class. For the word characters
  this is the start or the end of a word. -/
  | boundary (p : Char → Bool)
  | lineStart

namespace Pattern

variable {γ : Type u}

/-! ### Notions for writing patterns -/

/-- One character of a class. -/
def one (p : Char → Bool) : Pattern γ := .chars p 1 (some 1)

/-- One given character. -/
def lit (c : Char) : Pattern γ := .one (· = c)

/-- Nothing. -/
def nothing : Pattern γ := .chars (fun _ => false) 0 (some 0)

/-- One pattern after the other. -/
def concat : List (Pattern γ) → Pattern γ
  | [] => nothing
  | [r] => r
  | r :: rs => .seq r (concat rs)

/-- One of some patterns. -/
def oneOf : List (Pattern γ) → Pattern γ
  | [] => .chars (fun _ => false) 1 none
  | [r] => r
  | r :: rs => .alt r (oneOf rs)

/-- A given text. -/
def lits (s : List Char) : Pattern γ := concat (s.map lit)

/-- `n` times the pattern. -/
def times (n : ℕ) (r : Pattern γ) : Pattern γ := concat (List.replicate n r)

/-- At most `n` times the pattern. -/
def upTo : ℕ → Pattern γ → Pattern γ
  | 0, _ => nothing
  | n + 1, r => .opt (.seq r (upTo n r))

/-! ### Matches -/

/-- What stands between two places of a text. -/
def taken (s rest : List Char) : List Char := s.take (s.length - rest.length)

/-- The character before a place, after a text. -/
def before (prev : Option Char) (a : List Char) : Option Char := a.getLast?.or prev

/-- The matches of a repetition, at most `n` times; an empty match is not repeated. -/
def repeats (f : Option Char → List Char → List (List (Captured γ) × List Char)) :
    ℕ → Option Char → List Char → List (List (Captured γ) × List Char)
  | 0, _, s => [([], s)]
  | n + 1, prev, s => ((f prev s).filter fun m => m.2.length < s.length).flatMap (fun m =>
      (repeats f n (before prev (taken s m.2)) m.2).map fun m' => (m.1 ++ m'.1, m'.2)) ++ [([], s)]

/-- The match of a pattern that only asks for what stands around a place. -/
def look (holds : Bool) (s : List Char) : List (List (Captured γ) × List Char) :=
  if holds then [([], s)] else []

/-- The matches of a pattern at the start of a text, after a character: the texts that they are made
of, and the rest. -/
def allMatches : Pattern γ → Option Char → List Char → List (List (Captured γ) × List Char)
  | .chars p min max, _, s =>
      (Regex.rests p true min max s).map fun rest => ([⟨none, taken s rest⟩], rest)
  | .seq r r', prev, s => (allMatches r prev s).flatMap fun m =>
      (allMatches r' (before prev (taken s m.2)) m.2).map fun m' => (m.1 ++ m'.1, m'.2)
  | .alt r r', prev, s => allMatches r prev s ++ allMatches r' prev s
  | .star r, prev, s => repeats (allMatches r) s.length prev s
  | .opt r, prev, s => allMatches r prev s ++ [([], s)]
  | .group k r, prev, s => (allMatches r prev s).map fun m => ([⟨some k, taken s m.2⟩], m.2)
  | .notBehind p, prev, s => look (!prev.any p) s
  | .notAhead r, prev, s => look (allMatches r prev s).isEmpty s
  | .boundary p, prev, s => look (prev.any p != s.head?.any p) s
  | .lineStart, prev, s => look (prev.all (· = '\n')) s

/-- The match that a backtracking matcher returns. -/
def firstMatch (r : Pattern γ) (prev : Option Char) (s : List Char) :
    Option (List (Captured γ) × List Char) :=
  (r.allMatches prev s).head?

/-- A substitution from a place on, after some characters that belong to a match, of a pattern that
matches no empty text. -/
def subFrom {α : Type v} (r : Pattern γ) (keep : Char → α) (f : List (Captured γ) → List α) :
    Option Char → ℕ → List Char → List α
  | _, _, [] => []
  | _, skip + 1, c :: s => subFrom r keep f (some c) skip s
  | prev, 0, c :: s =>
    match r.firstMatch prev (c :: s) with
    | some m =>
      if m.2.length ≤ s.length then f m.1 ++ subFrom r keep f (some c) (s.length - m.2.length) s
      else keep c :: subFrom r keep f (some c) 0 s
    | none => keep c :: subFrom r keep f (some c) 0 s

/-- **The substitution**: what it makes of the matches in a text from the left, with the characters
outside of them. -/
def sub {α : Type v} (r : Pattern γ) (keep : Char → α) (f : List (Captured γ) → List α)
    (s : List Char) : List α :=
  subFrom r keep f none 0 s

/-- Whether there is a match in a text. -/
def foundIn (r : Pattern γ) : Option Char → List Char → Bool
  | prev, [] => (r.firstMatch prev []).isSome
  | prev, c :: s => (r.firstMatch prev (c :: s)).isSome || foundIn r (some c) s

/-- A substitution that depends on the text of a match only. -/
def replaceWith {α : Type v} (r : Pattern γ) (keep : Char → α) (g : List Char → List α) :
    List Char → List α :=
  r.sub keep fun m => g (Captured.texts m)

/-- The substitution of a text for each match, by the text of the match. -/
def replace (r : Pattern γ) (g : List Char → List Char) : List Char → List Char :=
  r.replaceWith id g

/-- **The rests that a match can leave.** -/
def Leaves (r : Pattern γ) (prev : Option Char) (s rest : List Char) : Prop :=
  ∃ m ∈ r.allMatches prev s, m.2 = rest

variable {r r' : Pattern γ} {rs : List (Pattern γ)} {p : Char → Bool} {min : ℕ} {max : Option ℕ}
  {k : γ} {c : Char} {prev : Option Char} {s t a b rest : List Char}
  {m : List (Captured γ) × List Char}

/-! ### What a match is made of -/

theorem taken_append (a b : List Char) : taken (a ++ b) b = a := by
  rw [taken, List.length_append, Nat.add_sub_cancel, List.take_left]

theorem texts_append (l l' : List (Captured γ)) :
    Captured.texts (l ++ l') = Captured.texts l ++ Captured.texts l' := List.flatMap_append

theorem texts_singleton (x : Captured γ) : Captured.texts [x] = x.text :=
  List.flatMap_singleton _ _

theorem mem_look {holds : Bool} : m ∈ look holds s ↔ holds = true ∧ m = ([], s) := by
  rw [look]
  split_ifs with h <;> simp [h]

/-- What a repetition finds is made of the text, if this holds for its part. -/
theorem eq_append_of_mem_repeats
    (ih : ∀ {prev s m}, m ∈ r.allMatches prev s → s = Captured.texts m.1 ++ m.2) {n : ℕ}
    (h : m ∈ repeats r.allMatches n prev s) : s = Captured.texts m.1 ++ m.2 := by
  induction n generalizing prev s m with
  | zero =>
    obtain rfl := List.mem_singleton.mp h
    rfl
  | succ n ihn =>
    rcases List.mem_append.mp h with h | h
    · obtain ⟨m₁, hm₁, h⟩ := List.mem_flatMap.mp h
      obtain ⟨m₂, hm₂, rfl⟩ := List.mem_map.mp h
      rw [texts_append, List.append_assoc, ← ihn hm₂]
      exact ih (List.mem_filter.mp hm₁).1
    · obtain rfl := List.mem_singleton.mp h
      rfl

/-- **A match** is made of the text that it matches. -/
theorem eq_append_of_mem (h : m ∈ r.allMatches prev s) : s = Captured.texts m.1 ++ m.2 := by
  induction r generalizing prev s m with
  | chars p min max =>
    obtain ⟨rest, hrest, rfl⟩ := List.mem_map.mp h
    obtain ⟨a, rfl, -⟩ := Regex.of_mem_rests hrest
    rw [taken_append, texts_singleton]
  | seq r r' ih ih' =>
    obtain ⟨m₁, hm₁, h⟩ := List.mem_flatMap.mp h
    obtain ⟨m₂, hm₂, rfl⟩ := List.mem_map.mp h
    rw [texts_append, List.append_assoc, ← ih' hm₂]
    exact ih hm₁
  | alt r r' ih ih' => exact (List.mem_append.mp h).elim ih ih'
  | star r ih => exact eq_append_of_mem_repeats ih h
  | opt r ih =>
    rcases List.mem_append.mp h with h | h
    · exact ih h
    · obtain rfl := List.mem_singleton.mp h
      rfl
  | group k r ih =>
    obtain ⟨m', hm', rfl⟩ := List.mem_map.mp h
    have hs := ih hm'
    have htaken : taken s m'.2 = Captured.texts m'.1 := by rw [hs, taken_append]
    rw [texts_singleton, htaken]
    exact hs
  | notBehind p | notAhead r | boundary p | lineStart =>
    rw [(mem_look.mp h).2]
    rfl

theorem eq_append_of_firstMatch (h : r.firstMatch prev s = some m) :
    s = Captured.texts m.1 ++ m.2 :=
  eq_append_of_mem (List.mem_of_head? h)

/-! ### The rests of a match -/

theorem leaves_of_firstMatch (h : r.firstMatch prev s = some m) : r.Leaves prev s m.2 :=
  ⟨m, List.mem_of_head? h, rfl⟩

theorem firstMatch_eq_none : r.firstMatch prev s = none ↔ ∀ rest, ¬r.Leaves prev s rest := by
  rw [firstMatch, List.head?_eq_none_iff, List.eq_nil_iff_forall_not_mem]
  exact ⟨fun h rest ⟨m, hm, _⟩ => h m hm, fun h m hm => h m.2 ⟨m, hm, rfl⟩⟩

theorem leaves_chars : (Pattern.chars p min max : Pattern γ).Leaves prev s rest ↔
    ∃ a, s = a ++ rest ∧ (∀ c ∈ a, p c = true) ∧ min ≤ a.length ∧ ∀ n ∈ max, a.length ≤ n := by
  constructor
  · rintro ⟨m, hm, rfl⟩
    obtain ⟨rest, hrest, rfl⟩ := List.mem_map.mp hm
    exact Regex.of_mem_rests hrest
  · rintro ⟨a, rfl, ha, hmin, hmax⟩
    exact ⟨_, List.mem_map_of_mem (Regex.mem_rests ha hmin hmax), rfl⟩

theorem leaves_seq : (r.seq r').Leaves prev s rest ↔
    ∃ mid, r.Leaves prev s mid ∧ r'.Leaves (before prev (taken s mid)) mid rest := by
  constructor
  · rintro ⟨m, hm, rfl⟩
    obtain ⟨m₁, hm₁, hm⟩ := List.mem_flatMap.mp hm
    obtain ⟨m₂, hm₂, rfl⟩ := List.mem_map.mp hm
    exact ⟨m₁.2, ⟨m₁, hm₁, rfl⟩, m₂, hm₂, rfl⟩
  · rintro ⟨_, ⟨m₁, hm₁, rfl⟩, m₂, hm₂, rfl⟩
    exact ⟨_, List.mem_flatMap.mpr ⟨m₁, hm₁, List.mem_map_of_mem hm₂⟩, rfl⟩

theorem leaves_alt : (r.alt r').Leaves prev s rest ↔ r.Leaves prev s rest ∨ r'.Leaves prev s rest := by
  simp only [Leaves, allMatches, List.mem_append, or_and_right, exists_or]

theorem leaves_group : (Pattern.group k r).Leaves prev s rest ↔ r.Leaves prev s rest := by
  constructor
  · rintro ⟨m, hm, rfl⟩
    obtain ⟨m', hm', rfl⟩ := List.mem_map.mp hm
    exact ⟨m', hm', rfl⟩
  · rintro ⟨m, hm, rfl⟩
    exact ⟨_, List.mem_map_of_mem hm, rfl⟩

theorem leaves_lit : (lit c : Pattern γ).Leaves prev s rest ↔ s = c :: rest := by
  rw [lit, one, leaves_chars]
  constructor
  · rintro ⟨a, rfl, ha, hmin, hmax⟩
    obtain ⟨d, rfl⟩ := List.length_eq_one_iff.mp (Nat.le_antisymm (hmax 1 rfl) hmin)
    rw [← of_decide_eq_true (ha d List.mem_cons_self)]
    rfl
  · rintro rfl
    exact ⟨[c], rfl, by simp, le_rfl, by simp⟩

theorem leaves_nothing : (nothing : Pattern γ).Leaves prev s rest ↔ s = rest := by
  rw [nothing, leaves_chars]
  constructor
  · rintro ⟨a, rfl, -, -, hmax⟩
    rw [List.length_eq_zero_iff.mp (Nat.le_zero.mp (hmax 0 rfl))]
    rfl
  · rintro rfl
    exact ⟨[], rfl, nofun, le_rfl, by simp⟩

theorem leaves_lits : (lits t : Pattern γ).Leaves prev s rest ↔ s = t ++ rest := by
  induction t generalizing prev s with
  | nil => exact leaves_nothing
  | cons c t ih =>
    cases t with
    | nil => exact leaves_lit
    | cons d t =>
      have hseq : (lits (c :: d :: t) : Pattern γ).Leaves prev s rest ↔ ∃ mid,
          (lit c : Pattern γ).Leaves prev s mid ∧
            (lits (d :: t) : Pattern γ).Leaves (before prev (taken s mid)) mid rest := leaves_seq
      simp only [hseq, leaves_lit, ih]
      exact ⟨fun ⟨mid, hs, hmid⟩ => by rw [hs, hmid]; rfl, fun hs => ⟨_, hs, rfl⟩⟩

theorem leaves_oneOf : (oneOf rs).Leaves prev s rest ↔ ∃ r ∈ rs, r.Leaves prev s rest := by
  induction rs with
  | nil =>
    rw [oneOf, leaves_chars]
    constructor
    · rintro ⟨a, -, ha, hmin, -⟩
      obtain ⟨c, hc⟩ := List.exists_mem_of_length_pos hmin
      exact absurd (ha c hc) Bool.false_ne_true
    · rintro ⟨r, hr, -⟩
      cases hr
  | cons r rs ih =>
    cases rs with
    | nil => simp [oneOf]
    | cons r' rs =>
      have halt : (oneOf (r :: r' :: rs)).Leaves prev s rest ↔
          r.Leaves prev s rest ∨ (oneOf (r' :: rs)).Leaves prev s rest := leaves_alt
      rw [halt, ih]
      simp only [List.mem_cons, exists_eq_or_imp]

/-! ### Steps of a substitution -/

section Substitution

variable {α : Type v} {keep : Char → α} {f : List (Captured γ) → List α}

/-- The characters of a match are passed over. -/
theorem subFrom_skip (prev : Option Char) (ha : a ≠ []) :
    subFrom r keep f prev a.length (a ++ b) = subFrom r keep f a.getLast? 0 b := by
  induction a generalizing prev with
  | nil => exact absurd rfl ha
  | cons c a ih =>
    cases a with
    | nil =>
      rw [List.length_singleton, List.singleton_append, subFrom]
      rfl
    | cons d a =>
      rw [List.getLast?_cons_cons]
      exact ih (some c) (List.cons_ne_nil d a)

/-- A match in a substitution. -/
theorem subFrom_of_firstMatch (h : r.firstMatch prev (a ++ b) = some (m.1, b)) (ha : a ≠ []) :
    subFrom r keep f prev 0 (a ++ b) = f m.1 ++ subFrom r keep f a.getLast? 0 b := by
  obtain ⟨c, a, rfl⟩ := List.exists_cons_of_ne_nil ha
  rw [List.cons_append] at h ⊢
  rw [subFrom, h]
  have hle : b.length ≤ (a ++ b).length := by
    rw [List.length_append]
    omega
  have hlen : (a ++ b).length - b.length = a.length := by
    rw [List.length_append, Nat.add_sub_cancel]
  simp only [hle, ↓reduceIte, hlen]
  cases a with
  | nil => rfl
  | cons d a => rw [subFrom_skip _ (List.cons_ne_nil d a), List.getLast?_cons_cons]

/-- A character outside the matches. -/
theorem subFrom_of_none (h : r.firstMatch prev (c :: s) = none) :
    subFrom r keep f prev 0 (c :: s) = keep c :: subFrom r keep f (some c) 0 s := by
  rw [subFrom, h]

/-- Where nothing is found, all characters stay. -/
theorem subFrom_of_not_foundIn (h : r.foundIn prev s = false) :
    subFrom r keep f prev 0 s = s.map keep := by
  induction s generalizing prev with
  | nil => rfl
  | cons c s ih =>
    rw [foundIn, Bool.or_eq_false_iff, Option.isSome_eq_false_iff, Option.isNone_iff_eq_none] at h
    rw [subFrom_of_none h.1, ih h.2, List.map_cons]

end Substitution

end Pattern

end Nodeglow
