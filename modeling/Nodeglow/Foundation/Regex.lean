import Mathlib.Data.List.TakeWhile

/-!
# Backtracking regular expressions

A pattern made of repeated character classes, sequences, alternatives, repetitions, optional parts,
capturing groups and a look ahead at one character, and its matches at the start of a text. A
backtracking matcher tries the alternatives in an order: a greedy repetition takes as many
characters as it can and gives them back one by one, a lazy one takes them one by one. Here the
matches of a pattern are the list of all alternatives in that order, each with the captured texts
and the rest; the matcher returns the first.

## Main definitions

* `Regex`, `Regex.allMatches`, `Regex.firstMatch`.

## Main results

* `Regex.head?_rests_append` — a greedy repetition takes the whole run of a class.
* `Regex.firstMatch_seq` — where the first alternative can be continued, it is the match.
* `Regex.firstMatch_until` — a lazy repetition ends at the first character that follows it in the
  pattern, and `Regex.allMatches_until_eq_nil`, where there is none.
-/

namespace Nodeglow

/-- A pattern. -/
inductive Regex
  /-- At least `min` and at most `max` characters of a class. -/
  | chars (p : Char → Bool) (min : ℕ) (max : Option ℕ) (greedy : Bool)
  | seq (r r' : Regex)
  /-- The first pattern, or the second. -/
  | alt (r r' : Regex)
  /-- A greedy repetition. -/
  | star (r : Regex)
  /-- A greedy optional part. -/
  | opt (r : Regex)
  /-- A capturing group. -/
  | group (r : Regex)
  /-- No character of a class follows. After a word character this is the end of the word. -/
  | notAhead (p : Char → Bool)

namespace Regex

/-- One given character. -/
def lit (c : Char) : Regex := .chars (· = c) 1 (some 1) true

/-- One pattern after the other. -/
def concat : List Regex → Regex
  | [] => .chars (fun _ => false) 0 (some 0) true
  | [r] => r
  | r :: rs => .seq r (concat rs)

/-- A given text. -/
def lits (s : List Char) : Regex := concat (s.map lit)

/-- One of some patterns. -/
def oneOf : List Regex → Regex
  | [] => .chars (fun _ => false) 1 none true
  | [r] => r
  | r :: rs => .alt r (oneOf rs)

/-- The rests that a repetition can leave, in the order in which they are tried. -/
def rests (p : Char → Bool) (greedy : Bool) : ℕ → Option ℕ → List Char → List (List Char)
  | min, _, [] => if min = 0 then [[]] else []
  | min, max, c :: cs =>
      let stop := if min = 0 then [c :: cs] else []
      let more := if p c ∧ max ≠ some 0 then rests p greedy (min - 1) (max.map (· - 1)) cs else []
      if greedy then more ++ stop else stop ++ more

/-- The matches of a repetition, at most `n` times; an empty match is not repeated. -/
def repeats (f : List Char → List (List (List Char) × List Char)) :
    ℕ → List Char → List (List (List Char) × List Char)
  | 0, s => [([], s)]
  | n + 1, s => ((f s).filter fun m => m.2.length < s.length).flatMap (fun m =>
      (repeats f n m.2).map fun m' => (m.1 ++ m'.1, m'.2)) ++ [([], s)]

/-- The matches of a pattern at the start of a text: the captured texts and the rest. -/
def allMatches : Regex → List Char → List (List (List Char) × List Char)
  | .chars p min max greedy, s => (rests p greedy min max s).map fun rest => ([], rest)
  | .seq r r', s => (allMatches r s).flatMap fun m =>
      (allMatches r' m.2).map fun m' => (m.1 ++ m'.1, m'.2)
  | .alt r r', s => allMatches r s ++ allMatches r' s
  | .star r, s => repeats (allMatches r) s.length s
  | .opt r, s => allMatches r s ++ [([], s)]
  | .group r, s => (allMatches r s).map fun m => (s.take (s.length - m.2.length) :: m.1, m.2)
  | .notAhead p, s => if s.head?.any p then [] else [([], s)]

/-- The match that a backtracking matcher returns. -/
def firstMatch (r : Regex) (s : List Char) : Option (List (List Char) × List Char) :=
  (r.allMatches s).head?

variable {p : Char → Bool} {r r' : Regex} {s a b : List Char} {c : Char} {min : ℕ}
  {max : Option ℕ} {greedy : Bool} {m m' : List (List Char) × List Char}

/-! ### Repetitions -/

/-- What follows a greedy repetition ends it. -/
def Ends (p : Char → Bool) (max : Option ℕ) (a b : List Char) : Prop :=
  max = some a.length ∨ ∀ c ∈ b.head?, p c = false

theorem Ends.cons (h : p c = false) : Ends p max a (c :: b) :=
  .inr fun _ hc => Option.some.inj hc ▸ h

/-- **A greedy repetition** takes the whole run of a class. -/
theorem head?_rests_append (ha : ∀ c ∈ a, p c = true) (hmin : min ≤ a.length)
    (hmax : ∀ n ∈ max, a.length ≤ n) (hb : Ends p max a b) :
    (rests p true min max (a ++ b)).head? = some b := by
  induction a generalizing min max with
  | nil =>
    obtain rfl : min = 0 := Nat.le_zero.mp hmin
    cases b with
    | nil => rfl
    | cons c b =>
      have hnot : ¬(p c ∧ max ≠ some 0) := by
        rintro ⟨hc, hne⟩
        rcases hb with hb | hb
        · exact hne hb
        · exact absurd hc (by simp [hb c rfl])
      simp [rests, hnot]
  | cons c a ih =>
    obtain ⟨hc, ha⟩ := List.forall_mem_cons.mp ha
    have hne : max ≠ some 0 := by
      rintro rfl
      exact absurd (hmax 0 rfl) (by simp)
    have hmore : (rests p true (min - 1) (max.map (· - 1)) (a ++ b)).head? = some b := by
      refine ih ha (by simp only [List.length_cons] at hmin; omega) ?_ ?_
      · intro n hn
        obtain ⟨k, hk, rfl⟩ := Option.map_eq_some_iff.mp hn
        have := hmax k hk
        simp only [List.length_cons] at this
        omega
      · rcases hb with hb | hb
        · left
          simp [hb]
        · exact .inr hb
    rw [List.cons_append, rests]
    simp only [if_pos (And.intro hc hne), if_true]
    rw [List.head?_append, hmore]
    rfl

/-- What a repetition leaves follows characters of its class, as many as the bounds allow. -/
theorem of_mem_rests (h : b ∈ rests p greedy min max s) :
    ∃ a, s = a ++ b ∧ (∀ c ∈ a, p c = true) ∧ min ≤ a.length ∧ ∀ n ∈ max, a.length ≤ n := by
  have hstop {min : ℕ} {max : Option ℕ} {s : List Char} (h : b ∈ if min = 0 then [s] else []) :
      ∃ a, s = a ++ b ∧ (∀ c ∈ a, p c = true) ∧ min ≤ a.length ∧ ∀ n ∈ max, a.length ≤ n := by
    split_ifs at h with hmin
    · obtain rfl := List.mem_singleton.mp h
      exact ⟨[], rfl, List.forall_mem_nil _, hmin.le, fun _ _ => Nat.zero_le _⟩
    · cases h
  induction s generalizing min max with
  | nil =>
    rw [rests] at h
    exact hstop h
  | cons c s ih =>
    have hmore (h : b ∈ if p c ∧ max ≠ some 0 then
        rests p greedy (min - 1) (max.map (· - 1)) s else []) : ∃ a, c :: s = a ++ b ∧
        (∀ c ∈ a, p c = true) ∧ min ≤ a.length ∧ ∀ n ∈ max, a.length ≤ n := by
      split_ifs at h with hc
      · obtain ⟨a, rfl, ha, hmin, hmax⟩ := ih h
        refine ⟨c :: a, rfl, List.forall_mem_cons.mpr ⟨hc.1, ha⟩, ?_, fun n hn => ?_⟩
        · rw [List.length_cons]
          omega
        · have hpos : n ≠ 0 := fun hzero => hc.2 (by rw [Option.mem_def.mp hn, hzero])
          have hle := hmax (n - 1) (by rw [Option.mem_def.mp hn]; rfl)
          rw [List.length_cons]
          omega
      · cases h
    simp only [rests] at h
    split at h
    · exact (List.mem_append.mp h).elim hmore hstop
    · exact (List.mem_append.mp h).elim hstop hmore

/-! ### Matches -/

theorem firstMatch_chars (ha : ∀ c ∈ a, p c = true) (hmin : min ≤ a.length)
    (hmax : ∀ n ∈ max, a.length ≤ n) (hb : Ends p max a b) :
    (Regex.chars p min max true).firstMatch (a ++ b) = some ([], b) := by
  rw [firstMatch, allMatches, List.head?_map, head?_rests_append ha hmin hmax hb]
  rfl

/-- A repetition without bounds takes the run of its class. -/
theorem firstMatch_run (p : Char → Bool) (s : List Char) :
    (Regex.chars p 0 none true).firstMatch s = some ([], s.dropWhile p) := by
  have hends : ∀ c ∈ (s.dropWhile p).head?, p c = false := by
    intro c hc
    have hnot := List.head?_dropWhile_not p s
    rw [Option.mem_def.mp hc] at hnot
    simpa using hnot
  have hrun : (Regex.chars p 0 none true).firstMatch (s.takeWhile p ++ s.dropWhile p) =
      some ([], s.dropWhile p) :=
    firstMatch_chars (fun c hc => List.mem_takeWhile_imp hc) (Nat.zero_le _) nofun (.inr hends)
  rwa [List.takeWhile_append_dropWhile] at hrun

theorem firstMatch_lit (c : Char) (b : List Char) : (lit c).firstMatch (c :: b) = some ([], b) :=
  firstMatch_chars (a := [c]) (by simp) le_rfl (by simp) (.inl rfl)

theorem allMatches_lit_eq_nil (h : b.head? ≠ some c) : (lit c).allMatches b = [] := by
  cases b with
  | nil => rfl
  | cons d b =>
    have hne : ¬d = c := fun heq => h (by rw [heq]; rfl)
    simp [lit, allMatches, rests, hne]

theorem allMatches_seq_eq_nil (h : r.allMatches s = []) (r' : Regex) :
    (r.seq r').allMatches s = [] := by
  rw [allMatches, h]
  rfl

theorem allMatches_lit_seq (c : Char) (r : Regex) (s : List Char) :
    ((lit c).seq r).allMatches (c :: s) = r.allMatches s := by
  have hrests (p : Char → Bool) : rests p true 0 (some 0) s = [s] := by
    cases s <;> simp [rests]
  have hlit : (lit c).allMatches (c :: s) = [([], s)] := by
    simp [lit, allMatches, rests, hrests]
  simp [allMatches, hlit]

/-- **A sequence** matches the first alternative, where it can be continued. -/
theorem firstMatch_seq (h : r.firstMatch s = some m) (h' : r'.firstMatch m.2 = some m') :
    (r.seq r').firstMatch s = some (m.1 ++ m'.1, m'.2) := by
  unfold firstMatch at h h' ⊢
  obtain ⟨ms, hms⟩ := List.head?_eq_some_iff.mp h
  rw [allMatches, hms, List.flatMap_cons, List.head?_append, List.head?_map, h']
  rfl

theorem firstMatch_group (h : r.firstMatch (a ++ b) = some (m.1, b)) :
    (Regex.group r).firstMatch (a ++ b) = some (a :: m.1, b) := by
  unfold firstMatch at h ⊢
  rw [allMatches, List.head?_map, h]
  simp

/-- A pattern in a sequence. -/
theorem firstMatch_concat_cons {rs : List Regex} (hrs : rs ≠ [])
    (hr : r.firstMatch s = some ([], b)) (h : (concat rs).firstMatch b = some m) :
    (concat (r :: rs)).firstMatch s = some m := by
  cases rs with
  | nil => exact absurd rfl hrs
  | cons r' rs => exact firstMatch_seq hr h

/-- A group in a sequence. -/
theorem firstMatch_concat_group {rs : List Regex} (hrs : rs ≠ [])
    (hr : r.firstMatch (a ++ b) = some ([], b)) (h : (concat rs).firstMatch b = some m) :
    (concat (.group r :: rs)).firstMatch (a ++ b) = some (a :: m.1, m.2) := by
  cases rs with
  | nil => exact absurd rfl hrs
  | cons r' rs => exact firstMatch_seq (firstMatch_group (m := ([], b)) hr) h

theorem firstMatch_opt (h : r.firstMatch s = some m) : (Regex.opt r).firstMatch s = some m := by
  unfold firstMatch at h ⊢
  rw [allMatches, List.head?_append, h]
  rfl

theorem firstMatch_opt_none (h : r.allMatches s = []) :
    (Regex.opt r).firstMatch s = some ([], s) := by
  unfold firstMatch
  rw [allMatches, h]
  rfl

/-- **A lazy repetition** ends at the first character that follows it in the pattern. -/
theorem firstMatch_until (ha : ∀ d ∈ a, p d = true) (hc : c ∉ a)
    (h : r.firstMatch b = some m) :
    ((Regex.chars p 0 none false).seq ((lit c).seq r)).firstMatch (a ++ c :: b) = some m := by
  have hrest : ((lit c).seq r).firstMatch (c :: b) = some m := by
    have hseq := firstMatch_seq (firstMatch_lit c b) h
    simpa using hseq
  unfold firstMatch at hrest ⊢
  rw [allMatches]
  change (((rests p false 0 none (a ++ c :: b)).map _).flatMap _).head? = _
  induction a with
  | nil =>
    rw [List.nil_append, rests]
    simp only [↓reduceIte, Bool.false_eq_true, List.cons_append, List.nil_append, List.map_cons,
      List.flatMap_cons]
    rw [List.head?_append, List.head?_map, hrest]
    rfl
  | cons d a ih =>
    obtain ⟨hd, ha⟩ := List.forall_mem_cons.mp ha
    obtain ⟨hne, hc⟩ := not_or.mp (fun hmem => hc (List.mem_cons.mpr hmem))
    have hhead : (d :: (a ++ c :: b)).head? ≠ some c := fun heq => hne (Option.some.inj heq).symm
    have hnil : ((lit c).seq r).allMatches (d :: (a ++ c :: b)) = [] := by
      rw [allMatches, allMatches_lit_eq_nil hhead]
      rfl
    rw [List.cons_append, rests]
    simp only [↓reduceIte, Bool.false_eq_true, List.cons_append, List.nil_append, List.map_cons,
      List.flatMap_cons, hnil, List.map_nil, hd, ne_eq, reduceCtorEq, not_false_eq_true, and_self,
      Option.map_none, Nat.zero_sub]
    exact ih ha hc

/-- Where other characters stand before the first one that follows, there is no match. -/
theorem allMatches_until_eq_nil (h : ∀ a b, s = a ++ c :: b → c ∉ a → ∃ d ∈ a, p d = false) :
    ((Regex.chars p 0 none false).seq ((lit c).seq r)).allMatches s = [] := by
  rw [allMatches, List.flatMap_eq_nil_iff]
  intro m hm
  obtain ⟨b, hb, rfl⟩ := List.mem_map.mp hm
  obtain ⟨a, rfl, ha, -⟩ := of_mem_rests hb
  have hne : b.head? ≠ some c := by
    intro hhead
    obtain ⟨b, rfl⟩ := List.head?_eq_some_iff.mp hhead
    obtain ⟨d, hd, hpd⟩ : ∃ d ∈ a, p d = false := by
      by_cases hc : c ∈ a
      · obtain ⟨x, y, rfl, hx⟩ := List.eq_append_cons_of_mem hc
        obtain ⟨d, hd, hpd⟩ := h x (y ++ c :: b) (by simp) hx
        exact ⟨d, List.mem_append_left _ hd, hpd⟩
      · exact h a b rfl hc
    exact absurd (ha d hd) (by simp [hpd])
  rw [allMatches, allMatches_lit_eq_nil hne]
  rfl

end Regex

end Nodeglow
