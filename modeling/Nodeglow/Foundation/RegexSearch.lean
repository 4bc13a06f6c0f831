import Nodeglow.Foundation.Regex

/-!
# Searching with regular expressions

The texts that a pattern matches are described without an order of alternatives: every match that a
backtracking matcher finds is one of a text that the pattern describes. With this, the places at
which there is no match are found without going through the alternatives. A search goes through the
places of a text from the left, and continues after a match.

## Main definitions

* `Regex.Matches` — the texts that a pattern matches.
* `Regex.search`, `Regex.findAll` — the first match in a text, and all of them.
* `Regex.captures` — how many texts a pattern captures.
* `Regex.quiet` — the pattern matches at no place of a text.

## Main results

* `Regex.exists_matches` — what is found is a text that the pattern matches.
* `Regex.firstMatch_lazy`, `Regex.firstMatch_group_lazy` — a lazy repetition of any characters ends
  at the first place at which the pattern can be continued.
* `Regex.findAll_of_firstMatch`, `Regex.findAll_append` — a search goes past a match, and past a
  text in which there is none.
-/

namespace Nodeglow.Regex

/-- **The texts that a pattern matches**, with what follows. -/
inductive Matches : Regex → List Char → List Char → Prop
  | chars {p min max greedy a b} (hp : ∀ c ∈ a, p c = true) (hmin : min ≤ a.length)
      (hmax : ∀ n ∈ max, a.length ≤ n) : Matches (.chars p min max greedy) a b
  | seq {r r' a a' b} (h : Matches r a (a' ++ b)) (h' : Matches r' a' b) :
      Matches (.seq r r') (a ++ a') b
  | altLeft {r r' a b} (h : Matches r a b) : Matches (.alt r r') a b
  | altRight {r r' a b} (h : Matches r' a b) : Matches (.alt r r') a b
  | starNil {r b} : Matches (.star r) [] b
  | starCons {r a a' b} (h : Matches r a (a' ++ b)) (h' : Matches (.star r) a' b) :
      Matches (.star r) (a ++ a') b
  | optSome {r a b} (h : Matches r a b) : Matches (.opt r) a b
  | optNone {r b} : Matches (.opt r) [] b
  | group {r a b} (h : Matches r a b) : Matches (.group r) a b
  | notAhead {p b} (h : ∀ c ∈ b.head?, p c = false) : Matches (.notAhead p) [] b

/-- The first match in a text: what it captures. -/
def search (r : Regex) : List Char → Option (List (List Char))
  | [] => (r.firstMatch []).map Prod.fst
  | c :: s =>
    match r.firstMatch (c :: s) with
    | some m => some m.1
    | none => search r s

/-- All matches in a text from the left, of a pattern that matches no empty text: what they capture.
The first characters, which belong to a match, are skipped. -/
def findAll (r : Regex) : ℕ → List Char → List (List (List Char))
  | _, [] => []
  | skip + 1, _ :: s => findAll r skip s
  | 0, c :: s =>
    match r.firstMatch (c :: s) with
    | some m => m.1 :: findAll r (s.length - m.2.length) s
    | none => findAll r 0 s

/-- Whether the pattern matches at no place of a text, before another text. -/
def quiet (r : Regex) : List Char → List Char → Bool
  | [], _ => true
  | c :: u, t => (r.firstMatch (c :: (u ++ t))).isNone && quiet r u t

variable {p : Char → Bool} {r r' : Regex} {s t a b : List Char} {c : Char} {min : ℕ}
  {max : Option ℕ} {greedy : Bool} {m : List (List Char) × List Char} {rs : List Regex}

/-! ### What is found -/

/-- A run of a class with a length between the bounds can be taken. -/
theorem mem_rests (ha : ∀ c ∈ a, p c = true) (hmin : min ≤ a.length)
    (hmax : ∀ n ∈ max, a.length ≤ n) : b ∈ rests p greedy min max (a ++ b) := by
  induction a generalizing min max with
  | nil =>
    obtain rfl : min = 0 := Nat.le_zero.mp hmin
    cases b with
    | nil => simp [rests]
    | cons c b =>
      rw [List.nil_append, rests]
      split <;> simp
  | cons c a ih =>
    obtain ⟨hc, ha⟩ := List.forall_mem_cons.mp ha
    have hpos : max ≠ some 0 := by
      rintro rfl
      exact absurd (hmax 0 rfl) (by simp)
    have hmore : b ∈ rests p greedy (min - 1) (max.map (· - 1)) (a ++ b) := by
      refine ih ha (by rw [List.length_cons] at hmin; omega) fun n hn => ?_
      obtain ⟨k, hk, rfl⟩ := Option.map_eq_some_iff.mp hn
      have hle := hmax k hk
      rw [List.length_cons] at hle
      omega
    rw [List.cons_append, rests]
    simp only [if_pos (And.intro hc hpos)]
    split
    · exact List.mem_append_left _ hmore
    · exact List.mem_append_right _ hmore

/-- What a repetition finds, if its part finds what it matches. -/
theorem exists_matches_repeats
    (ih : ∀ {s m}, m ∈ r.allMatches s → ∃ a, s = a ++ m.2 ∧ r.Matches a m.2) {n : ℕ}
    (h : m ∈ repeats r.allMatches n s) : ∃ a, s = a ++ m.2 ∧ (Regex.star r).Matches a m.2 := by
  induction n generalizing s m with
  | zero =>
    obtain rfl := List.mem_singleton.mp h
    exact ⟨[], rfl, .starNil⟩
  | succ n ihn =>
    rcases List.mem_append.mp h with h | h
    · obtain ⟨m₁, hm₁, h⟩ := List.mem_flatMap.mp h
      obtain ⟨m₂, hm₂, rfl⟩ := List.mem_map.mp h
      obtain ⟨a, rfl, ha⟩ := ih (List.mem_filter.mp hm₁).1
      obtain ⟨a', heq, ha'⟩ := ihn hm₂
      exact ⟨a ++ a', by rw [heq, List.append_assoc], .starCons (heq ▸ ha) ha'⟩
    · obtain rfl := List.mem_singleton.mp h
      exact ⟨[], rfl, .starNil⟩

/-- **What is found** is a text that the pattern matches. -/
theorem exists_matches (h : m ∈ r.allMatches s) : ∃ a, s = a ++ m.2 ∧ r.Matches a m.2 := by
  induction r generalizing s m with
  | chars p min max greedy =>
    obtain ⟨b, hb, rfl⟩ := List.mem_map.mp h
    obtain ⟨a, rfl, hp, hmin, hmax⟩ := of_mem_rests hb
    exact ⟨a, rfl, .chars hp hmin hmax⟩
  | seq r r' ih ih' =>
    obtain ⟨m₁, hm₁, h⟩ := List.mem_flatMap.mp h
    obtain ⟨m₂, hm₂, rfl⟩ := List.mem_map.mp h
    obtain ⟨a, rfl, ha⟩ := ih hm₁
    obtain ⟨a', heq, ha'⟩ := ih' hm₂
    exact ⟨a ++ a', by rw [heq, List.append_assoc], .seq (heq ▸ ha) ha'⟩
  | alt r r' ih ih' =>
    rcases List.mem_append.mp h with h | h
    · obtain ⟨a, hs, ha⟩ := ih h
      exact ⟨a, hs, .altLeft ha⟩
    · obtain ⟨a, hs, ha⟩ := ih' h
      exact ⟨a, hs, .altRight ha⟩
  | star r ih => exact exists_matches_repeats ih h
  | opt r ih =>
    rcases List.mem_append.mp h with h | h
    · obtain ⟨a, hs, ha⟩ := ih h
      exact ⟨a, hs, .optSome ha⟩
    · obtain rfl := List.mem_singleton.mp h
      exact ⟨[], rfl, .optNone⟩
  | group r ih =>
    obtain ⟨m', hm', rfl⟩ := List.mem_map.mp h
    obtain ⟨a, hs, ha⟩ := ih hm'
    exact ⟨a, hs, .group ha⟩
  | notAhead p =>
    rw [allMatches] at h
    split_ifs at h with hany
    · cases h
    · obtain rfl := List.mem_singleton.mp h
      refine ⟨[], rfl, .notAhead fun c hc => eq_false_of_ne_true fun hp => hany ?_⟩
      rw [Option.mem_def.mp hc]
      exact hp

/-- Where the pattern matches no text at a place, nothing is found there. -/
theorem firstMatch_eq_none (h : ∀ a b, s = a ++ b → ¬r.Matches a b) : r.firstMatch s = none := by
  rw [firstMatch, List.head?_eq_none_iff, List.eq_nil_iff_forall_not_mem]
  intro m hm
  obtain ⟨a, hs, ha⟩ := exists_matches hm
  exact h a m.2 hs ha

/-! ### The captured texts -/

/-- How many texts a pattern captures, if it is the same number for all matches. -/
def captures : Regex → Option ℕ
  | .chars _ _ _ _ => some 0
  | .seq r r' => (captures r).bind fun n => (captures r').map (n + ·)
  | .alt r r' => if captures r = captures r' then captures r else none
  | .star r => if captures r = some 0 then some 0 else none
  | .opt r => if captures r = some 0 then some 0 else none
  | .group r => (captures r).map (· + 1)
  | .notAhead _ => some 0

theorem length_of_mem_repeats (ih : ∀ {s m}, m ∈ r.allMatches s → m.1.length = 0) {n : ℕ}
    (h : m ∈ repeats r.allMatches n s) : m.1.length = 0 := by
  induction n generalizing s m with
  | zero =>
    obtain rfl := List.mem_singleton.mp h
    rfl
  | succ n ihn =>
    rcases List.mem_append.mp h with h | h
    · obtain ⟨m₁, hm₁, h⟩ := List.mem_flatMap.mp h
      obtain ⟨m₂, hm₂, rfl⟩ := List.mem_map.mp h
      rw [List.length_append, ih (List.mem_filter.mp hm₁).1, ihn hm₂]
    · obtain rfl := List.mem_singleton.mp h
      rfl

/-- **The captured texts** of a match. -/
theorem length_of_mem_allMatches {n : ℕ} (h : r.captures = some n) (hm : m ∈ r.allMatches s) :
    m.1.length = n := by
  induction r generalizing s m n with
  | chars p min max greedy =>
    obtain ⟨b, -, rfl⟩ := List.mem_map.mp hm
    exact Option.some.inj h
  | seq r r' ih ih' =>
    obtain ⟨k, hk, h⟩ := Option.bind_eq_some_iff.mp h
    obtain ⟨k', hk', rfl⟩ := Option.map_eq_some_iff.mp h
    obtain ⟨m₁, hm₁, hm⟩ := List.mem_flatMap.mp hm
    obtain ⟨m₂, hm₂, rfl⟩ := List.mem_map.mp hm
    rw [List.length_append, ih hk hm₁, ih' hk' hm₂]
  | alt r r' ih ih' =>
    rw [captures] at h
    split_ifs at h with hsame
    exact (List.mem_append.mp hm).elim (ih h) (ih' (hsame ▸ h))
  | star r ih =>
    rw [captures] at h
    split_ifs at h with hzero
    rw [length_of_mem_repeats (ih hzero) hm, Option.some.inj h]
  | opt r ih =>
    rw [captures] at h
    split_ifs at h with hzero
    rcases List.mem_append.mp hm with hm | hm
    · rw [ih hzero hm, Option.some.inj h]
    · rw [List.mem_singleton.mp hm, ← Option.some.inj h]
      rfl
  | group r ih =>
    obtain ⟨k, hk, rfl⟩ := Option.map_eq_some_iff.mp h
    obtain ⟨m', hm', rfl⟩ := List.mem_map.mp hm
    rw [List.length_cons, ih hk hm']
  | notAhead p =>
    rw [allMatches] at hm
    split_ifs at hm
    · cases hm
    · rw [List.mem_singleton.mp hm, ← Option.some.inj h]
      rfl

theorem length_of_firstMatch {n : ℕ} (h : r.captures = some n) (hm : r.firstMatch s = some m) :
    m.1.length = n :=
  length_of_mem_allMatches h (List.mem_of_head? hm)

/-! ### The texts of a pattern -/

theorem matches_run : (Regex.chars p min none greedy).Matches a b ↔
    (∀ c ∈ a, p c = true) ∧ min ≤ a.length :=
  ⟨fun h => by cases h with | chars hp hmin _ => exact ⟨hp, hmin⟩, fun h => .chars h.1 h.2 nofun⟩

theorem matches_lit : (lit c).Matches a b ↔ a = [c] := by
  constructor
  · intro h
    cases h with
    | chars hp hmin hmax =>
      obtain ⟨d, rfl⟩ := List.length_eq_one_iff.mp (Nat.le_antisymm (hmax 1 rfl) hmin)
      rw [of_decide_eq_true (hp d List.mem_cons_self)]
  · rintro rfl
    exact .chars (by simp) le_rfl (by simp)

theorem matches_seq : (Regex.seq r r').Matches a b ↔
    ∃ a₁ a₂, a = a₁ ++ a₂ ∧ r.Matches a₁ (a₂ ++ b) ∧ r'.Matches a₂ b := by
  constructor
  · intro h
    cases h with
    | seq h h' => exact ⟨_, _, rfl, h, h'⟩
  · rintro ⟨a₁, a₂, rfl, h, h'⟩
    exact .seq h h'

theorem matches_concat_singleton : (concat [r]).Matches a b ↔ r.Matches a b := Iff.rfl

theorem matches_concat_cons (hrs : rs ≠ []) : (concat (r :: rs)).Matches a b ↔
    ∃ a₁ a₂, a = a₁ ++ a₂ ∧ r.Matches a₁ (a₂ ++ b) ∧ (concat rs).Matches a₂ b := by
  cases rs with
  | nil => exact absurd rfl hrs
  | cons r' rs => exact matches_seq

theorem matches_lits : (lits t).Matches a b ↔ a = t := by
  induction t generalizing a b with
  | nil =>
    constructor
    · intro h
      cases h with
      | chars _ _ hmax => exact List.length_eq_zero_iff.mp (Nat.le_zero.mp (hmax 0 rfl))
    · rintro rfl
      exact .chars nofun le_rfl (by simp)
  | cons c t ih =>
    cases t with
    | nil => exact matches_lit
    | cons d t =>
      have hseq : (lits (c :: d :: t)).Matches a b ↔
          ∃ a₁ a₂, a = a₁ ++ a₂ ∧ (lit c).Matches a₁ (a₂ ++ b) ∧ (lits (d :: t)).Matches a₂ b :=
        matches_seq
      simp only [hseq, matches_lit, ih]
      constructor
      · rintro ⟨_, _, rfl, rfl, rfl⟩
        rfl
      · rintro rfl
        exact ⟨_, _, rfl, rfl, rfl⟩

/-! ### First matches -/

theorem firstMatch_lits (t b : List Char) : (lits t).firstMatch (t ++ b) = some ([], b) := by
  induction t with
  | nil =>
    cases b <;> rfl
  | cons c t ih =>
    cases t with
    | nil => exact firstMatch_lit c b
    | cons d t =>
      have hseq : ((lit c).seq (lits (d :: t))).firstMatch (c :: (d :: t ++ b)) = some ([] ++ [], b) :=
        firstMatch_seq (firstMatch_lit c _) ih
      exact hseq

theorem firstMatch_alt_left (h : r.firstMatch s = some m) :
    (Regex.alt r r').firstMatch s = some m := by
  unfold firstMatch at h ⊢
  rw [allMatches, List.head?_append, h]
  rfl

theorem firstMatch_alt_right (h : r.firstMatch s = none) :
    (Regex.alt r r').firstMatch s = r'.firstMatch s := by
  unfold firstMatch at h ⊢
  rw [allMatches, List.head?_append, h]
  rfl

/-- One of some patterns, of which the earlier ones do not match. -/
theorem firstMatch_oneOf {before after : List Regex}
    (hbefore : ∀ r' ∈ before, r'.firstMatch s = none) (h : r.firstMatch s = some m) :
    (oneOf (before ++ r :: after)).firstMatch s = some m := by
  induction before with
  | nil =>
    cases after with
    | nil => exact h
    | cons r' after => exact firstMatch_alt_left h
  | cons r' before ih =>
    obtain ⟨hr', hbefore⟩ := List.forall_mem_cons.mp hbefore
    have hne : before ++ r :: after ≠ [] := by simp
    obtain ⟨r'', rs, hrs⟩ := List.exists_cons_of_ne_nil hne
    rw [List.cons_append, hrs, oneOf, firstMatch_alt_right hr', ← hrs]
    · exact ih hbefore
    · exact nofun

theorem firstMatch_notAhead (h : ∀ c ∈ b.head?, p c = false) :
    (Regex.notAhead p).firstMatch b = some ([], b) := by
  have hany : ¬b.head?.any p = true := by
    cases hhead : b.head? with
    | none => exact nofun
    | some c => exact fun hp => absurd hp (by simp [h c hhead])
  rw [firstMatch, allMatches, if_neg hany]
  rfl

/-- What a lazy repetition of any characters leaves is tried from the longest text on. -/
theorem head?_flatMap_rests {β : Type*} {f : List Char → List β} {x : β}
    (h : ∀ u, u <:+ a → u ≠ [] → f (u ++ b) = []) (hb : (f b).head? = some x) :
    ((rests (fun _ => true) false 0 none (a ++ b)).flatMap f).head? = some x := by
  induction a with
  | nil => cases b <;> simp [rests, hb]
  | cons c a ih =>
    have hnil := h (c :: a) List.suffix_rfl (List.cons_ne_nil c a)
    have hrests : rests (fun _ => true) false 0 none (c :: a ++ b) =
        (c :: a ++ b) :: rests (fun _ => true) false 0 none (a ++ b) := by
      simp [rests]
    rw [hrests, List.flatMap_cons, hnil, List.nil_append]
    exact ih fun u hu hne => h u (hu.trans (List.suffix_cons c a)) hne

theorem allMatches_eq_nil : r.allMatches s = [] ↔ r.firstMatch s = none :=
  List.head?_eq_none_iff.symm

/-- **A lazy repetition** of any characters ends at the first place at which the pattern can be
continued. -/
theorem firstMatch_lazy (h : ∀ u, u <:+ a → u ≠ [] → r.firstMatch (u ++ b) = none)
    (hb : r.firstMatch b = some m) :
    ((Regex.chars (fun _ => true) 0 none false).seq r).firstMatch (a ++ b) = some m := by
  rw [firstMatch, allMatches, allMatches, List.flatMap_map]
  refine head?_flatMap_rests (fun u hu hne => ?_) ?_
  · rw [allMatches_eq_nil.mpr (h u hu hne)]
    rfl
  · rw [List.head?_map, ← firstMatch, hb]
    rfl

/-- The text before that place is captured. -/
theorem firstMatch_group_lazy (h : ∀ u, u <:+ a → u ≠ [] → r.firstMatch (u ++ b) = none)
    (hb : r.firstMatch b = some m) :
    ((Regex.group (.chars (fun _ => true) 0 none false)).seq r).firstMatch (a ++ b) =
      some (a :: m.1, m.2) := by
  rw [firstMatch, allMatches, allMatches, allMatches, List.map_map, List.flatMap_map]
  refine head?_flatMap_rests (fun u hu hne => ?_) ?_
  · rw [Function.comp_apply, allMatches_eq_nil.mpr (h u hu hne)]
    rfl
  · rw [Function.comp_apply, List.head?_map, ← firstMatch, hb]
    simp

/-! ### Searching -/

theorem findAll_skip (r : Regex) (a s : List Char) :
    findAll r a.length (a ++ s) = findAll r 0 s := by
  induction a with
  | nil => rfl
  | cons c a ih => exact ih

/-- **A search goes past a match.** -/
theorem findAll_of_firstMatch {groups : List (List Char)} (ha : a ≠ [])
    (h : r.firstMatch (a ++ b) = some (groups, b)) :
    findAll r 0 (a ++ b) = groups :: findAll r 0 b := by
  obtain ⟨c, a, rfl⟩ := List.exists_cons_of_ne_nil ha
  have hskip : (a ++ b).length - b.length = a.length := by
    rw [List.length_append, Nat.add_sub_cancel]
  rw [List.cons_append] at h ⊢
  rw [findAll, h]
  simp only [hskip, findAll_skip]

/-- **A search goes past a text** in which there is no match. -/
theorem findAll_append (h : ∀ u, u <:+ a → u ≠ [] → r.firstMatch (u ++ b) = none) :
    findAll r 0 (a ++ b) = findAll r 0 b := by
  induction a with
  | nil => rfl
  | cons c a ih =>
    have hnone := h (c :: a) List.suffix_rfl nofun
    rw [List.cons_append] at hnone ⊢
    rw [findAll, hnone]
    exact ih fun u hu hne => h u (hu.trans (List.suffix_cons c a)) hne

theorem firstMatch_of_quiet (h : quiet r a b = true) :
    ∀ u, u <:+ a → u ≠ [] → r.firstMatch (u ++ b) = none := by
  induction a with
  | nil => exact fun u hu hne => absurd (List.suffix_nil.mp hu) hne
  | cons c a ih =>
    rw [quiet, Bool.and_eq_true, Option.isNone_iff_eq_none] at h
    intro u hu hne
    rcases List.suffix_cons_iff.mp hu with rfl | hu
    · exact h.1
    · exact ih h.2 u hu hne

end Nodeglow.Regex
