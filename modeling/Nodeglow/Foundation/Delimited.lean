import Nodeglow.Foundation.Pattern
import Nodeglow.Foundation.Text

/-!
# Texts with codes

A code is a text between two brackets that do not occur inside of it. Where a pattern matches the
codes and nothing else, the codes of a text do not overlap, and a text can be cut at every place
that is not inside a code. A text in which codes were put in place of values is a list of parts, the
characters that were kept and the values. Putting the values back gives the text before, if it had
no code of its own.

## Main definitions

* `Pattern.Delimited` — a pattern that matches the codes between two brackets.
* `Piece`, `Piece.write` — the parts of a text, and what they read as.
* `Piece.spans`, `Piece.Apart` — where something was put, and that two such lists do not overlap.

## Main results

* `Pattern.Delimited.replace_append` — a text can be replaced in two pieces, if the codes that go
  over the cut stay as they are.
* `Pattern.Delimited.replaceWith_write`, `Pattern.Delimited.replace_write` — the codes are found,
  and the values put back.
* `Piece.exists_compose` — two rounds of putting codes are one.
-/

namespace Nodeglow

universe u v w

namespace Pattern

/-- A pattern that matches the codes, which stand between two brackets. -/
structure Delimited {γ : Type u} (r : Pattern γ) (IsCode : List Char → Prop) (o c : Char) : Prop where
  leaves_iff : ∀ prev s rest, r.Leaves prev s rest ↔ ∃ t, IsCode t ∧ s = t ++ rest
  shape : ∀ t, IsCode t → ∃ body, t = o :: (body ++ [c]) ∧ o ∉ body ∧ c ∉ body
  ne : o ≠ c

namespace Delimited

variable {γ : Type u} {r : Pattern γ} {IsCode : List Char → Prop} {o c : Char}
  (h : r.Delimited IsCode o c) {g : List Char → List Char} {prev : Option Char} {x : Char}
  {s t t' a b : List Char}

include h

theorem ne_nil (ht : IsCode t) : t ≠ [] := by
  obtain ⟨body, rfl, -⟩ := h.shape t ht
  exact nofun

/-- **One code** at most stands at the start of a text. -/
theorem eq_of_append (ht : IsCode t) (ht' : IsCode t') (heq : t ++ a = t' ++ b) : t = t' ∧ a = b := by
  obtain ⟨body, rfl, -, hbody⟩ := h.shape t ht
  obtain ⟨body', rfl, -, hbody'⟩ := h.shape t' ht'
  simp only [List.cons_append, List.append_assoc, List.nil_append, List.cons.injEq, true_and] at heq
  obtain ⟨rfl, rfl⟩ := (Text.append_cons_inj hbody hbody').mp heq
  exact ⟨rfl, rfl⟩

theorem firstMatch_code (ht : IsCode t) (b : List Char) (prev : Option Char) :
    ∃ m, r.firstMatch prev (t ++ b) = some (m, b) ∧ Captured.texts m = t := by
  have hleaves : r.Leaves prev (t ++ b) b := (h.leaves_iff prev _ b).mpr ⟨t, ht, rfl⟩
  obtain ⟨m, hm⟩ : ∃ m, r.firstMatch prev (t ++ b) = some m :=
    Option.ne_none_iff_exists'.mp fun hnone => firstMatch_eq_none.mp hnone b hleaves
  obtain ⟨t', ht', heq⟩ := (h.leaves_iff prev _ _).mp (leaves_of_firstMatch hm)
  obtain ⟨rfl, hrest⟩ := h.eq_of_append ht ht' heq
  refine ⟨m.1, by rw [hm, hrest], ?_⟩
  have htexts := eq_append_of_firstMatch hm
  rw [hrest] at htexts
  exact (List.append_cancel_right htexts).symm

theorem firstMatch_none (hs : ∀ t, IsCode t → ¬t <+: s) : r.firstMatch prev s = none := by
  refine firstMatch_eq_none.mpr fun rest hleaves => ?_
  obtain ⟨t, ht, rfl⟩ := (h.leaves_iff prev _ _).mp hleaves
  exact hs t ht (List.prefix_append t rest)

/-- A text is read from the left, a code or a character at a time. -/
theorem reading {P : List Char → Prop} (nil : P [])
    (code : ∀ t b, IsCode t → P b → P (t ++ b))
    (char : ∀ x s, (∀ t, IsCode t → ¬t <+: x :: s) → P s → P (x :: s)) (s : List Char) : P s := by
  induction hn : s.length using Nat.strong_induction_on generalizing s with
  | h n ih =>
    subst hn
    cases s with
    | nil => exact nil
    | cons x s =>
      by_cases hcode : ∃ t, IsCode t ∧ t <+: x :: s
      · obtain ⟨t, ht, b, hb⟩ := hcode
        have hpos := List.length_pos_of_ne_nil (h.ne_nil ht)
        rw [← hb]
        refine code t b ht (ih b.length ?_ b rfl)
        rw [← hb, List.length_append]
        omega
      · exact char x s (fun t ht hpre => hcode ⟨t, ht, hpre⟩) (ih s.length (Nat.lt_succ_self _) s rfl)

section ReplaceWith

variable {α : Type v} {keep : Char → α} {f : List Char → List α}

/-- What stands before a text makes no difference. -/
theorem subFrom_eq_replaceWith (prev : Option Char) (s : List Char) :
    subFrom r keep (fun m => f (Captured.texts m)) prev 0 s = r.replaceWith keep f s := by
  rw [replaceWith, sub]
  induction s using h.reading generalizing prev with
  | nil => rfl
  | code t b ht ih =>
    obtain ⟨m, hm, htexts⟩ := h.firstMatch_code ht b prev
    obtain ⟨m', hm', htexts'⟩ := h.firstMatch_code ht b none
    rw [subFrom_of_firstMatch (m := (m, b)) hm (h.ne_nil ht),
      subFrom_of_firstMatch (m := (m', b)) hm' (h.ne_nil ht), htexts, htexts']
  | char x s hx ih =>
    rw [subFrom_of_none (h.firstMatch_none hx), subFrom_of_none (h.firstMatch_none hx)]

/-- A code in a text. -/
theorem replaceWith_code (ht : IsCode t) (b : List Char) :
    r.replaceWith keep f (t ++ b) = f t ++ r.replaceWith keep f b := by
  obtain ⟨m, hm, htexts⟩ := h.firstMatch_code ht b none
  rw [← h.subFrom_eq_replaceWith none, subFrom_of_firstMatch (m := (m, b)) hm (h.ne_nil ht), htexts,
    h.subFrom_eq_replaceWith]

/-- A character outside the codes. -/
theorem replaceWith_cons (hx : ∀ t, IsCode t → ¬t <+: x :: s) :
    r.replaceWith keep f (x :: s) = keep x :: r.replaceWith keep f s := by
  rw [← h.subFrom_eq_replaceWith none, subFrom_of_none (h.firstMatch_none hx),
    h.subFrom_eq_replaceWith]

end ReplaceWith

theorem replace_code (ht : IsCode t) (b : List Char) :
    r.replace g (t ++ b) = g t ++ r.replace g b := h.replaceWith_code ht b

theorem replace_cons (hx : ∀ t, IsCode t → ¬t <+: x :: s) :
    r.replace g (x :: s) = x :: r.replace g s := h.replaceWith_cons hx

theorem replace_eq_self (hg : ∀ t, IsCode t → g t = t) (s : List Char) : r.replace g s = s := by
  induction s using h.reading with
  | nil => rfl
  | code t b ht ih => rw [h.replace_code ht, hg t ht, ih]
  | char x s hx ih => rw [h.replace_cons hx, ih]

/-! ### Cuts -/

/-- A text without the opening bracket. -/
theorem replace_append_of_notMem (ha : o ∉ a) (b : List Char) :
    r.replace g (a ++ b) = a ++ r.replace g b := by
  induction a with
  | nil => rfl
  | cons x a ih =>
    rw [List.mem_cons, not_or] at ha
    rw [List.cons_append, h.replace_cons, ih ha.2]
    · rfl
    · intro t ht hpre
      obtain ⟨body, rfl, -⟩ := h.shape t ht
      exact ha.1 (List.cons_prefix_cons.mp hpre).1

/-- A text without the closing bracket. -/
theorem replace_of_notMem (hs : c ∉ s) : r.replace g s = s := by
  induction s with
  | nil => rfl
  | cons x s ih =>
    rw [h.replace_cons, ih fun hc => hs (List.mem_cons_of_mem x hc)]
    intro t ht hpre
    obtain ⟨body, rfl, -⟩ := h.shape t ht
    exact hs (hpre.subset (by simp))

/-- What stands on the two sides of a cut in a code. -/
theorem notMem_of_cut {u w : List Char} (ht : IsCode (u ++ w)) (hu : u ≠ []) (hw : w ≠ []) :
    c ∉ u ∧ o ∉ w := by
  obtain ⟨body, hshape, ho, hc⟩ := h.shape _ ht
  constructor
  · obtain ⟨w, y, rfl⟩ := (List.eq_nil_or_concat' w).resolve_left hw
    rw [← List.append_assoc, ← List.cons_append] at hshape
    have hbody := List.append_inj_left' hshape rfl
    intro hmem
    rcases List.mem_cons.mp (hbody ▸ List.mem_append_left w hmem) with heq | hmem
    · exact h.ne heq.symm
    · exact hc hmem
  · obtain ⟨x, u, rfl⟩ := List.exists_cons_of_ne_nil hu
    have hbody : u ++ w = body ++ [c] := (List.cons.inj hshape).2
    intro hmem
    rcases List.mem_append.mp (hbody ▸ List.mem_append_right u hmem) with hmem | hmem
    · exact ho hmem
    · exact h.ne (List.mem_singleton.mp hmem)

/-- **A text can be cut** where no code goes over the cut, or only codes that stay as they are. -/
theorem replace_append (hcut : ∀ u w, u <:+ a → u ≠ [] → w <+: b → w ≠ [] → IsCode (u ++ w) →
    g (u ++ w) = u ++ w) : r.replace g (a ++ b) = r.replace g a ++ r.replace g b := by
  induction a using h.reading with
  | nil => rfl
  | code t a ht ih =>
    rw [List.append_assoc, h.replace_code ht, h.replace_code ht, ih, List.append_assoc]
    exact fun u w hu => hcut u w (hu.trans (List.suffix_append t a))
  | char x a hx ih =>
    by_cases hcode : ∃ t, IsCode t ∧ t <+: x :: (a ++ b)
    · obtain ⟨t, ht, hpre⟩ := hcode
      obtain ⟨w, rfl⟩ : x :: a <+: t :=
        (List.prefix_or_prefix_of_prefix hpre (List.prefix_append (x :: a) b)).resolve_left (hx t ht)
      have hw : w ≠ [] := by
        rintro rfl
        rw [List.append_nil] at ht
        exact hx _ ht List.prefix_rfl
      obtain ⟨b, rfl⟩ := (List.prefix_append_right_inj (x :: a)).mp hpre
      obtain ⟨hclose, hopen⟩ := h.notMem_of_cut ht (List.cons_ne_nil x a) hw
      have hkept :=
        hcut (x :: a) w List.suffix_rfl (List.cons_ne_nil x a) (List.prefix_append w b) hw ht
      rw [← List.append_assoc, h.replace_code ht, hkept, h.replace_of_notMem hclose,
        h.replace_append_of_notMem hopen, List.append_assoc]
    · rw [List.cons_append, h.replace_cons fun t ht hpre => hcode ⟨t, ht, hpre⟩, h.replace_cons hx, ih,
        List.cons_append]
      exact fun u w hu => hcut u w (hu.trans (List.suffix_cons x a))

end Delimited

end Pattern

/-! ### Parts -/

/-- A part of a text: a character that was kept, or what was put in another place. -/
inductive Piece (κ : Type u)
  | kept (c : Char)
  | put (x : κ)

namespace Piece

variable {κ : Type u}

/-- What a part reads as. -/
def read (value : κ → List Char) : Piece κ → List Char
  | kept c => [c]
  | put x => value x

/-- What a substitution makes of a part. -/
def subst {α : Type v} (keep : Char → α) (f : κ → List α) : Piece κ → List α
  | kept c => [keep c]
  | put x => f x

/-- What the parts of a text read as. -/
def write (value : κ → List Char) (parts : List (Piece κ)) : List Char := parts.flatMap (read value)

variable {value code : κ → List Char} {parts parts' ps p₁ p₂ : List (Piece κ)} {x : κ} {o c : Char}
  {s t u a b : List Char}

theorem write_append (value : κ → List Char) (p₁ p₂ : List (Piece κ)) :
    write value (p₁ ++ p₂) = write value p₁ ++ write value p₂ := List.flatMap_append

theorem write_kept (value : κ → List Char) (c : Char) (parts : List (Piece κ)) :
    write value (kept c :: parts) = c :: write value parts := rfl

theorem write_put (value : κ → List Char) (x : κ) (parts : List (Piece κ)) :
    write value (put x :: parts) = value x ++ write value parts := rfl

theorem write_map_kept (value : κ → List Char) (s : List Char) : write value (s.map kept) = s := by
  induction s with
  | nil => rfl
  | cons c s ih => rw [List.map_cons, write_kept, ih]

theorem write_congr (h : ∀ x, put x ∈ parts → value x = code x) :
    write value parts = write code parts := by
  induction parts with
  | nil => rfl
  | cons part parts ih =>
    have htail := ih fun x hx => h x (List.mem_cons_of_mem part hx)
    cases part with
    | kept c => rw [write_kept, write_kept, htail]
    | put x => rw [write_put, write_put, htail, h x List.mem_cons_self]

/-- A text without the opening bracket was kept. -/
theorem exists_kept (hcode : ∀ x, put x ∈ parts → ∃ y, code x = o :: y) (hu : o ∉ u)
    (h : write code parts = u ++ t) :
    ∃ parts', parts = u.map kept ++ parts' ∧ write code parts' = t := by
  induction u generalizing parts with
  | nil => exact ⟨parts, rfl, h⟩
  | cons d u ih =>
    rw [List.mem_cons, not_or] at hu
    cases parts with
    | nil => cases h
    | cons part parts =>
      cases part with
      | put x =>
        obtain ⟨y, hy⟩ := hcode x List.mem_cons_self
        rw [write_put, hy] at h
        exact absurd (List.cons.inj h).1 hu.1
      | kept e =>
        obtain ⟨rfl, htail⟩ := List.cons.inj h
        obtain ⟨parts', rfl, hparts'⟩ :=
          ih (fun x hx => hcode x (List.mem_cons_of_mem _ hx)) hu.2 htail
        exact ⟨parts', rfl, hparts'⟩

/-- A place that is not inside a code divides the parts. -/
theorem exists_split (h : write code parts = a ++ b)
    (hcut : ∀ p₁ x p₂, parts = p₁ ++ put x :: p₂ →
      (write code p₁).length + (code x).length ≤ a.length ∨ a.length ≤ (write code p₁).length) :
    ∃ p₁ p₂, parts = p₁ ++ p₂ ∧ write code p₁ = a ∧ write code p₂ = b := by
  induction parts generalizing a with
  | nil =>
    obtain ⟨rfl, rfl⟩ := List.append_eq_nil_iff.mp h.symm
    exact ⟨[], [], rfl, rfl, rfl⟩
  | cons part parts ih =>
    by_cases ha : a = []
    · subst ha
      exact ⟨[], part :: parts, rfl, rfl, h⟩
    obtain ⟨a', rfl, h'⟩ : ∃ a', a = read code part ++ a' ∧ write code parts = a' ++ b := by
      have hle : (read code part).length ≤ a.length := by
        cases part with
        | kept c => exact List.length_pos_of_ne_nil ha
        | put x =>
          rcases hcut [] x parts rfl with hcut | hcut
          · simpa [write, read] using hcut
          · exact absurd (List.length_eq_zero_iff.mp (Nat.le_zero.mp hcut)) ha
      have hwrite : read code part ++ write code parts = a ++ b := h
      obtain ⟨a', rfl⟩ : read code part <+: a :=
        List.prefix_of_prefix_length_le ⟨_, hwrite⟩ (List.prefix_append a b) hle
      rw [List.append_assoc] at hwrite
      exact ⟨a', rfl, List.append_cancel_left hwrite⟩
    obtain ⟨p₁, p₂, rfl, hp₁, hp₂⟩ := ih h' fun p₁ x p₂ heq => by
      have hcut := hcut (part :: p₁) x p₂ (by rw [heq]; rfl)
      have hlen : (write code (part :: p₁)).length =
          (read code part).length + (write code p₁).length := List.length_append
      rw [hlen, List.length_append] at hcut
      omega
    exact ⟨part :: p₁, p₂, rfl, by rw [← hp₁]; rfl, hp₂⟩

/-- A substitution that puts something in place of the matches takes the text apart. -/
theorem write_subFrom {γ : Type v} {r : Pattern γ} {f : List (Captured γ) → List (Piece κ)}
    (hf : ∀ m, write value (f m) = Captured.texts m) (prev : Option Char) (n : ℕ) (s : List Char) :
    write value (r.subFrom kept f prev n s) = s.drop n := by
  induction s generalizing prev n with
  | nil => cases n <;> rfl
  | cons c s ih =>
    cases n with
    | succ n => exact ih (some c) n
    | zero =>
      rw [Pattern.subFrom]
      cases hm : r.firstMatch prev (c :: s) with
      | none => simp only [write_kept, ih, List.drop_zero]
      | some m =>
        by_cases hle : m.2.length ≤ s.length
        · have htexts := Pattern.eq_append_of_firstMatch hm
          have hsuffix : m.2 <:+ s :=
            List.suffix_of_suffix_length_le ⟨_, htexts.symm⟩ (List.suffix_cons c s) hle
          have hdrop : s.drop (s.length - m.2.length) = m.2 :=
            (List.suffix_iff_eq_drop.mp hsuffix).symm
          simp only [hle, ↓reduceIte]
          rw [write_append, hf, ih, hdrop, List.drop_zero, ← htexts]
        · simp only [hle, ↓reduceIte, write_kept, ih, List.drop_zero]

/-- What a substitution puts is what it makes of some match. -/
theorem exists_of_mem_subFrom {γ : Type v} {r : Pattern γ} {f : List (Captured γ) → List (Piece κ)}
    {prev : Option Char} {n : ℕ} (h : put x ∈ r.subFrom kept f prev n s) : ∃ m, put x ∈ f m := by
  induction s generalizing prev n with
  | nil => cases n <;> cases h
  | cons c s ih =>
    cases n with
    | succ n => exact ih h
    | zero =>
      have hkept (h : put x ∈ kept c :: r.subFrom kept f (some c) 0 s) : ∃ m, put x ∈ f m :=
        ih ((List.mem_cons.mp h).resolve_left nofun)
      rw [Pattern.subFrom] at h
      split at h
      · split_ifs at h
        · exact (List.mem_append.mp h).elim (fun h => ⟨_, h⟩) ih
        · exact hkept h
      · exact hkept h

theorem write_sub {γ : Type v} {r : Pattern γ} {f : List (Captured γ) → List (Piece κ)}
    (hf : ∀ m, write value (f m) = Captured.texts m) (s : List Char) :
    write value (r.sub kept f s) = s := write_subFrom hf none 0 s

/-- Parts without codes. -/
theorem eq_map_kept (h : ∀ x, put x ∉ parts) : parts = (write code parts).map kept := by
  induction parts with
  | nil => rfl
  | cons part parts ih =>
    cases part with
    | put x => exact absurd List.mem_cons_self (h x)
    | kept c =>
      rw [write_kept, List.map_cons, ← ih fun x hx => h x (List.mem_cons_of_mem _ hx)]

/-- The places from which on and up to which something was put, of a text that begins at a place. -/
def spans (value : κ → List Char) : ℕ → List (Piece κ) → List (ℕ × ℕ)
  | _, [] => []
  | n, kept _ :: parts => spans value (n + 1) parts
  | n, put x :: parts => (n, n + (value x).length) :: spans value (n + (value x).length) parts

/-- Two lists of spans that do not overlap. -/
def Apart (a b : List (ℕ × ℕ)) : Prop := ∀ x ∈ a, ∀ y ∈ b, y.2 ≤ x.1 ∨ x.2 ≤ y.1

instance (a b : List (ℕ × ℕ)) : Decidable (Apart a b) :=
  inferInstanceAs (Decidable (∀ x ∈ a, ∀ y ∈ b, y.2 ≤ x.1 ∨ x.2 ≤ y.1))

theorem spans_append (value : κ → List Char) (n : ℕ) (p₁ p₂ : List (Piece κ)) :
    spans value n (p₁ ++ p₂) = spans value n p₁ ++ spans value (n + (write value p₁).length) p₂ := by
  induction p₁ generalizing n with
  | nil => rfl
  | cons part p₁ ih =>
    cases part with
    | kept c =>
      rw [List.cons_append, spans, spans, ih, write_kept, List.length_cons, Nat.add_right_comm,
        Nat.add_assoc]
    | put x =>
      rw [List.cons_append, spans, spans, ih, write_put, List.length_append, List.cons_append,
        Nat.add_assoc]

theorem mem_spans (value : κ → List Char) (n : ℕ) (p₁ : List (Piece κ)) (x : κ) (p₂ : List (Piece κ)) :
    (n + (write value p₁).length, n + (write value p₁).length + (value x).length) ∈
      spans value n (p₁ ++ put x :: p₂) := by
  rw [spans_append]
  exact List.mem_append_right _ List.mem_cons_self

/-- What a second round replaces was kept by the first. -/
theorem exists_kept_of_apart {n : ℕ} (hne : ∀ y, put y ∈ parts → code y ≠ [])
    (h : write code parts = u ++ (value x ++ t))
    (hapart : Apart [(n + u.length, n + u.length + (value x).length)] (spans code n parts)) :
    ∃ p₁ p₂, parts = p₁ ++ ((value x).map kept ++ p₂) ∧ write code p₁ = u ∧ write code p₂ = t := by
  have hx (q y q') (heq : parts = q ++ put y :: q') := by
    have hspan := hapart _ (List.mem_singleton.mpr rfl) _ (heq ▸ mem_spans code n q y q')
    exact hspan
  obtain ⟨p₁, p₂, rfl, rfl, hp₂⟩ := exists_split h fun q y q' heq => by
    have := hx q y q' heq
    omega
  have hmid (q y q') (heq : p₂ = q ++ put y :: q') : (value x).length ≤ (write code q).length := by
    have hpos := List.length_pos_of_ne_nil (hne y (by simp [heq]))
    have hxy := hx (p₁ ++ q) y q' (by rw [heq, List.append_assoc])
    rw [write_append, List.length_append] at hxy
    omega
  obtain ⟨pv, p₂, rfl, hpv, hp₂⟩ := exists_split hp₂ fun q y q' heq => .inr (hmid q y q' heq)
  have hkept : ∀ y, put y ∉ pv := by
    intro y hy
    obtain ⟨q, q', rfl⟩ := List.append_of_mem hy
    have hle := hmid q y (q' ++ p₂) (by simp)
    have hpos := List.length_pos_of_ne_nil (hne y (by simp))
    rw [← hpv, write_append, write_put, List.length_append, List.length_append] at hle
    omega
  exact ⟨p₁, p₂, by rw [← hpv, ← eq_map_kept hkept], rfl, hp₂⟩

/-- **Two rounds** of putting codes are one, if what the second one replaces is outside the codes of
the first. The text of the first round begins at a place `n`, and the one of the second round is its
rest after `u`. -/
theorem exists_compose {n : ℕ} (hne : ∀ y, put y ∈ parts → code y ≠ [])
    (h : write code parts = u ++ write value ps)
    (hapart : Apart (spans value (n + u.length) ps) (spans code n parts)) :
    ∃ parts', write code parts' = u ++ write code ps ∧ write value parts' = write value parts ∧
      ∀ x, put x ∈ parts' → put x ∈ parts ∨ put x ∈ ps := by
  induction ps generalizing parts u n with
  | nil => exact ⟨parts, h, rfl, fun x hx => .inl hx⟩
  | cons part ps ih =>
    cases part with
    | kept d =>
      have hcons (value : κ → List Char) :
          u ++ write value (kept d :: ps) = u ++ [d] ++ write value ps := by
        rw [write_kept, List.append_cons]
      rw [hcons] at h
      have hnext : Apart (spans value (n + (u ++ [d]).length) ps) (spans code n parts) := by
        rwa [List.length_append, List.length_singleton, ← Nat.add_assoc]
      obtain ⟨parts', hcode, hvalue, hmem⟩ := ih hne h hnext
      exact ⟨parts', by rw [hcode, hcons], hvalue,
        fun x hx => (hmem x hx).imp_right (List.mem_cons_of_mem _)⟩
    | put x =>
      rw [write_put] at h
      obtain ⟨hfirst, hlater⟩ := List.forall_mem_cons.mp hapart
      obtain ⟨p₁, p₂, rfl, rfl, hp₂⟩ :=
        exists_kept_of_apart hne h fun y hy => List.mem_singleton.mp hy ▸ hfirst
      have hkept (code : κ → List Char) : write code (p₁ ++ ((value x).map kept ++ p₂)) =
          write code p₁ ++ (value x ++ write code p₂) := by
        rw [write_append, write_append, write_map_kept]
      -- The rest of the text begins after the value that was replaced.
      have hnext : Apart (spans value (n + (write code p₁).length + (value x).length + 0) ps)
          (spans code (n + (write code p₁).length + (value x).length) p₂) := by
        intro y hy z hz
        refine hlater y hy z ?_
        rw [spans_append, spans_append, write_map_kept]
        exact List.mem_append_right _ (List.mem_append_right _ hz)
      obtain ⟨parts', hcode, hvalue, hmem⟩ :=
        ih (u := []) (fun y hy => hne y (by simp [hy])) hp₂ hnext
      refine ⟨p₁ ++ put x :: parts', ?_, ?_, ?_⟩
      · rw [write_append, write_put, write_put, hcode, List.nil_append]
      · rw [write_append, write_put, hvalue, hkept]
      · intro y hy
        rcases List.mem_append.mp hy with hy | hy
        · exact .inl (List.mem_append_left _ hy)
        · rcases List.mem_cons.mp hy with heq | hy
          · exact .inr (List.mem_cons.mpr (.inl heq))
          · refine (hmem y hy).imp (fun hy => ?_) (List.mem_cons_of_mem _)
            exact List.mem_append_right _ (List.mem_append_right _ hy)

end Piece

/-! ### Reading the codes -/

/-- **The codes are found** in a text that had no code of its own. -/
theorem Pattern.Delimited.replaceWith_write {γ : Type u} {r : Pattern γ} {IsCode : List Char → Prop}
    {o c : Char} (h : r.Delimited IsCode o c) {α : Type w} {keep : Char → α} {f : List Char → List α}
    {κ : Type v} {source code : κ → List Char} {parts : List (Piece κ)}
    (hcode : ∀ x, .put x ∈ parts → IsCode (code x))
    (hno : ∀ t, IsCode t → ¬t <:+: Piece.write source parts) :
    r.replaceWith keep f (Piece.write code parts) =
      parts.flatMap (Piece.subst keep fun x => f (code x)) := by
  induction parts with
  | nil => rfl
  | cons part parts ih =>
    have htail := ih (fun x hx => hcode x (List.mem_cons_of_mem part hx))
      fun t ht hin => hno t ht (hin.trans (List.suffix_append _ _).isInfix)
    cases part with
    | put x =>
      rw [Piece.write_put, h.replaceWith_code (hcode x List.mem_cons_self), htail]
      rfl
    | kept d =>
      rw [Piece.write_kept, h.replaceWith_cons, htail]
      · rfl
      -- A code here would consist of kept characters, and would be one of the source.
      intro t ht hpre
      obtain ⟨body, rfl, ho, -⟩ := h.shape t ht
      obtain ⟨rfl, rest, hrest⟩ := List.cons_prefix_cons.mp hpre
      have hopen : o ∉ body ++ [c] := by
        rw [List.mem_append, List.mem_singleton, not_or]
        exact ⟨ho, h.ne⟩
      obtain ⟨parts', rfl, -⟩ := Piece.exists_kept (fun x hx => by
        obtain ⟨y, hy, -⟩ := h.shape _ (hcode x (List.mem_cons_of_mem _ hx))
        exact ⟨_, hy⟩) hopen hrest.symm
      refine hno _ ht ?_
      rw [Piece.write_kept, Piece.write_append, Piece.write_map_kept]
      exact (List.prefix_append _ (Piece.write source parts')).isInfix

/-- **The values are put back** for the codes. -/
theorem Pattern.Delimited.replace_write {γ : Type u} {r : Pattern γ} {IsCode : List Char → Prop}
    {o c : Char} (h : r.Delimited IsCode o c) {g : List Char → List Char} {κ : Type v}
    {source code value : κ → List Char} {parts : List (Piece κ)}
    (hcode : ∀ x, .put x ∈ parts → IsCode (code x))
    (hvalue : ∀ x, .put x ∈ parts → g (code x) = value x)
    (hno : ∀ t, IsCode t → ¬t <:+: Piece.write source parts) :
    r.replace g (Piece.write code parts) = Piece.write value parts := by
  rw [Pattern.replace, h.replaceWith_write hcode hno]
  refine List.flatMap_congr fun part hpart => ?_
  cases part with
  | kept c => rfl
  | put x => exact hvalue x hpart

end Nodeglow
