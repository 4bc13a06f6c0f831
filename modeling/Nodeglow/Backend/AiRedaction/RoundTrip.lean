import Nodeglow.Backend.AiRedaction.Redact

/-!
# Restoring a redacted text

A text is the same after it was redacted and restored, up to the case of letters, if no pass
replaces a value that overlaps a placeholder of an earlier pass. Otherwise the placeholder is inside
of a value, and is not restored, since restoring goes through the text once. The values that take
the place of placeholders are never secrets, unless the same value was also replaced as something
else.

## Main results

* `Redactor.runPasses_spec` — the text after the passes is the text before with placeholders for
  values.
* `Redactor.undone_of_passesApart` — over every history of a redactor.
* `Redactor.not_undone_sample` — an address in the name of a user.

Source: `backend/services/ai_redaction.py`, lines 181–286 and 321–326.
-/

namespace Nodeglow.AiRedaction

/-- Texts that are equal up to the case of letters, in some of their pieces. -/
inductive SameButCase (py : Text.Lower) : List Char → List Char → Prop
  | nil : SameButCase py [] []
  | char {s t} (c : Char) (h : SameButCase py s t) : SameButCase py (c :: s) (c :: t)
  | piece {v w s t} (hcase : lower py v = lower py w) (h : SameButCase py s t) :
      SameButCase py (v ++ s) (w ++ t)

/-- Where only the letters of ASCII have a case, texts that are equal up to it have the same length.
-/
theorem SameButCase.length_eq {s t : List Char} (h : SameButCase .asciiOnly s t) :
    s.length = t.length := by
  have hlower (v : List Char) : (lower .asciiOnly v).length = v.length := by
    simp [lower, Text.Lower.asciiOnly, Text.asciiLower]
  induction h with
  | nil => rfl
  | char c _ ih => rw [List.length_cons, List.length_cons, ih]
  | @piece v w s t hcase _ ih =>
    rw [List.length_append, List.length_append, ih, ← hlower v, hcase, hlower]

/-- The places of the placeholders in a text. -/
def placeholderSpans (t : List Char) : List (ℕ × ℕ) :=
  Piece.spans id 0 (placeholderRe.replaceWith .kept (fun ph => [.put ph]) t)

namespace Redactor

/-- **The values that the passes replace** do not overlap the placeholders that are there already.
-/
def PassesApart (py : Python) : Redactor → List Pass → List Char → Prop
  | _, [], _ => True
  | st, pass :: passes, t =>
    Piece.Apart (Piece.spans Prod.snd 0 (pass t)) (placeholderSpans t) ∧
      PassesApart py (st.write py (pass t)).2 passes (st.write py (pass t)).1

instance decidablePassesApart (py : Python) : (st : Redactor) → (passes : List Pass) →
    (t : List Char) → Decidable (st.PassesApart py passes t)
  | _, [], _ => .isTrue trivial
  | st, pass :: passes, t =>
    haveI := decidablePassesApart py (st.write py (pass t)).2 passes (st.write py (pass t)).1
    inferInstanceAs (Decidable (_ ∧ _))

/-- **A text is undone**: it is the same after it was redacted and restored. -/
def Undone (py : Python) (st : Redactor) (text : List Char) : Prop :=
  SameButCase py.toLower ((st.redact py text).2.restore (st.redact py text).1) text

/-- **A value is given back**: it takes the place of a placeholder in an answer. -/
def GivesBack (st : Redactor) (v : List Char) : Prop :=
  ∃ ph, IsPlaceholder ph ∧ st.restore ph ≠ ph ∧ st.restore ph = v

end Redactor

/-! ### The places of placeholders -/

/-- A text that has no placeholder of its own. -/
theorem not_infix_of_foundIn {γ : Type*} {r : Pattern γ} {IsCode : List Char → Prop} {o c : Char}
    (h : r.Delimited IsCode o c) {prev : Option Char} {s : List Char} (hs : r.foundIn prev s = false)
    (t : List Char) (ht : IsCode t) : ¬t <:+: s := by
  induction s generalizing prev with
  | nil =>
    intro hin
    exact h.ne_nil ht (List.infix_nil.mp hin)
  | cons d s ih =>
    rw [Pattern.foundIn, Bool.or_eq_false_iff] at hs
    intro hin
    rcases List.infix_cons_iff.mp hin with ⟨b, hb⟩ | hin
    · obtain ⟨m, hm, -⟩ := h.firstMatch_code ht b prev
      rw [← hb, hm] at hs
      cases hs.1
    · exact ih hs.2 hin

/-- The places where placeholders were put. -/
theorem placeholderSpans_write {code : Value → List Char} {parts : List (Piece Value)}
    (hcode : ∀ x, .put x ∈ parts → IsPlaceholder (code x))
    (hno : ∀ t, IsPlaceholder t → ¬t <:+: Piece.write Prod.snd parts) :
    placeholderSpans (Piece.write code parts) = Piece.spans code 0 parts := by
  have hspans (n : ℕ) (parts : List (Piece Value)) :
      Piece.spans id n (parts.flatMap (Piece.subst .kept fun x => [.put (code x)])) =
        Piece.spans code n parts := by
    induction parts generalizing n with
    | nil => rfl
    | cons part parts ih =>
      cases part with
      | kept c => exact ih (n + 1)
      | put x => exact congrArg _ (ih _)
  rw [placeholderSpans, delimited_placeholderRe.replaceWith_write hcode hno, hspans]

namespace Redactor

variable {py : Python} {st : Redactor} {parts : List (Piece Value)} {passes : List Pass}
  {text : List Char}

/-- **The passes**: the text after them is the text before, with placeholders for values that are no
secrets. -/
theorem runPasses_spec (h : st.Valid py.toLower) (hpasses : ∀ p ∈ passes, TakesApart p)
    (hparts : ∀ x, .put x ∈ parts → st.Issued py.toLower x ∧ x.1 ∉ noRestore)
    (hno : ∀ t, IsPlaceholder t → ¬t <:+: Piece.write Prod.snd parts)
    (hapart : st.PassesApart py passes (Piece.write (st.code py.toLower) parts)) :
    let result := st.runPasses py passes (Piece.write (st.code py.toLower) parts)
    ∃ parts', result.1 = Piece.write (result.2.code py.toLower) parts' ∧
      Piece.write Prod.snd parts' = Piece.write Prod.snd parts ∧
      ∀ x, .put x ∈ parts' → result.2.Issued py.toLower x ∧ x.1 ∉ noRestore := by
  induction passes generalizing st parts with
  | nil => exact ⟨parts, rfl, rfl, hparts⟩
  | cons pass passes ih =>
    obtain ⟨hpass, hpasses⟩ := List.forall_mem_cons.mp hpasses
    obtain ⟨hfirst, hlater⟩ := hapart
    set t := Piece.write (st.code py.toLower) parts with ht
    obtain ⟨hext, hissued, hwrite⟩ := st.write_spec py (pass t)
    have hvalid := h.write (pass t)
    have hpartsOf := hpass t
    have hnext : ∀ x, .put x ∈ parts → (st.write py (pass t)).2.Issued py.toLower x := fun x hx =>
      (hparts x hx).1.of_extends hext
    have hcode : ∀ x, .put x ∈ parts → IsPlaceholder ((st.write py (pass t)).2.code py.toLower x) :=
      fun x hx => hvalid.isPlaceholder_code (hnext x hx)
    -- The placeholders are the same for the redactor after the pass.
    have hsame : t = Piece.write ((st.write py (pass t)).2.code py.toLower) parts := by
      rw [ht]
      exact Piece.write_congr fun x hx => (code_of_extends (hparts x hx).1 hext).symm
    have hspans : placeholderSpans t =
        Piece.spans ((st.write py (pass t)).2.code py.toLower) 0 parts := by
      conv_lhs => rw [hsame]
      exact placeholderSpans_write hcode hno
    rw [hspans] at hfirst
    obtain ⟨parts', hparts', hsource, hmem⟩ := Piece.exists_compose (u := [])
      (fun x hx => delimited_placeholderRe.ne_nil (hcode x hx))
      (hsame.symm.trans hpartsOf.write_eq.symm) hfirst
    rw [List.nil_append, ← hwrite] at hparts'
    have hissued' : ∀ x, .put x ∈ parts' →
        (st.write py (pass t)).2.Issued py.toLower x ∧ x.1 ∉ noRestore := by
      intro x hx
      rcases hmem x hx with hx | hx
      · exact ⟨hnext x hx, (hparts x hx).2⟩
      · exact ⟨hissued x hx, hpartsOf.kind_of_put x hx⟩
    rw [← hparts'] at hlater
    obtain ⟨parts'', hresult, hsource', hlast⟩ := ih hvalid hpasses hissued' (hsource ▸ hno) hlater
    rw [hparts'] at hresult hlast
    exact ⟨parts'', hresult, hsource'.trans hsource, hlast⟩

/-! ### Undoing -/

/-- The value of a placeholder, up to the case. -/
theorem Valid.original_code {py : Text.Lower} {x : Value} (h : st.Valid py) (hx : st.Issued py x)
    (hkind : x.1 ∉ noRestore) :
    st.original (st.code py x) = x.2 ∨ lower py (st.original (st.code py x)) = lower py x.2 := by
  obtain ⟨ph, hget⟩ := hx
  obtain ⟨v, hv, hnorm⟩ := h.restored hget hkind
  have horiginal : st.original (st.code py x) = v := by
    rw [code, hget, original, Option.getD_some, hv]
    rfl
  rw [horiginal]
  rw [norm, norm] at hnorm
  split_ifs at hnorm
  · exact .inr hnorm
  · exact .inl hnorm

theorem Valid.sameButCase {py : Text.Lower} (h : st.Valid py)
    (hparts : ∀ x, .put x ∈ parts → st.Issued py x ∧ x.1 ∉ noRestore) :
    SameButCase py (Piece.write (fun x => st.original (st.code py x)) parts)
      (Piece.write Prod.snd parts) := by
  induction parts with
  | nil => exact .nil
  | cons part parts ih =>
    have htail := ih fun x hx => hparts x (List.mem_cons_of_mem _ hx)
    cases part with
    | kept c => exact .char c htail
    | put x =>
      obtain ⟨hissued, hkind⟩ := hparts x List.mem_cons_self
      have hcase : lower py (st.original (st.code py x)) = lower py x.2 :=
        (h.original_code hissued hkind).elim (fun heq => by rw [heq]) id
      exact .piece hcase htail

/-- A text with placeholders for values is restored. -/
theorem Valid.restore_sameButCase {py : Text.Lower} (h : st.Valid py)
    (hparts : ∀ x, .put x ∈ parts → st.Issued py x ∧ x.1 ∉ noRestore)
    (hno : ∀ t, IsPlaceholder t → ¬t <:+: Piece.write Prod.snd parts) :
    SameButCase py (st.restore (Piece.write (st.code py) parts)) (Piece.write Prod.snd parts) := by
  rw [restore_eq, delimited_placeholderRe.replace_write
    (fun x hx => h.isPlaceholder_code (hparts x hx).1) (fun _ _ => rfl) hno]
  exact h.sameButCase hparts

/-- **A text is undone**, if the passes replace no value that overlaps a placeholder. -/
theorem Valid.undone (h : st.Valid py.toLower) (hsecret : hasSecret py text = false)
    (hliteral : placeholderRe.foundIn none text = false)
    (hapart : st.enabled = true → st.PassesApart py
      (identityPasses py ++ hostPasses py st.redactHostnames st.knownHosts) text) :
    st.Undone py text := by
  have hno := not_infix_of_foundIn delimited_placeholderRe hliteral
  have hkept : ∀ x, .put x ∈ keep text → st.Issued py.toLower x ∧ x.1 ∉ noRestore := fun x hx =>
    absurd hx (put_notMem_keep text)
  have hself (code : Value → List Char) : Piece.write code (keep text) = text :=
    Nodeglow.AiRedaction.write_keep code text
  rw [Undone, Redactor.redact]
  split_ifs with hskip
  · have hrestored := h.restore_sameButCase hkept (by rwa [hself])
    rwa [hself, hself] at hrestored
  · have henabled : st.enabled = true := by
      by_contra hnot
      exact hskip (by simp [hnot])
    rw [List.append_assoc, runPasses_append, runPasses_eq_self (secretPasses_keep hsecret)]
    obtain ⟨parts, hresult, hsource, hparts⟩ := runPasses_spec h
      (fun p hp => takesApart_of_mem hp) hkept (by rwa [hself])
      (by rw [hself]; exact hapart henabled)
    rw [hself] at hresult hsource hparts
    have hvalid := h.runPasses
      (identityPasses py ++ hostPasses py st.redactHostnames st.knownHosts) text
    have hrestored := hvalid.restore_sameButCase hparts (by rwa [hsource])
    rwa [hsource, ← hresult] at hrestored

/-- The placeholders of secrets stay. -/
theorem Valid.restore_secret {py : Text.Lower} (h : st.Valid py) (n : ℕ) :
    st.restore (placeholderText .secret n) = placeholderText .secret n := by
  rw [restore_placeholder st (isPlaceholder_placeholderText _ _), original]
  cases hget : st.reverse.get (placeholderText .secret n) with
  | none => rfl
  | some v =>
    obtain ⟨k, hk, hforward⟩ := h.issued hget
    obtain ⟨n', -, heq⟩ := h.numbered hforward
    rw [← (placeholderText_inj.mp heq).1] at hk
    exact absurd (by decide) hk

/-- A value that was replaced as secrets only is not given back. -/
theorem Valid.not_givesBack {py : Text.Lower} (h : st.Valid py) {v : List Char}
    (hother : ∀ k ∉ noRestore, st.forward.get (k, norm py k v) = none) : ¬st.GivesBack v := by
  rintro ⟨ph, hph, hne, rfl⟩
  rw [restore_placeholder st hph, original] at hne hother
  cases hget : st.reverse.get ph with
  | none => exact hne (by rw [hget]; rfl)
  | some v =>
    obtain ⟨k, hk, hforward⟩ := h.issued hget
    have hnone := hother k hk
    rw [hget, Option.getD_some, hforward] at hnone
    cases hnone

/-- **Redaction is undone**, after every earlier history of the redactor: for a text without secrets
and placeholders in which no pass, if the redactor is enabled, replaces a value that overlaps a
placeholder. The placeholders of secrets stay, and a secret is given back only if it was replaced as
something else as well. -/
theorem undone_of_passesApart (py : Python) (enabled redactHostnames : Bool)
    (hosts history : List (List Char)) :
    let st := (new enabled redactHostnames hosts).afterRedacting py history
    (∀ text, hasSecret py text = false → placeholderRe.foundIn none text = false →
      (st.enabled = true → st.PassesApart py
        (identityPasses py ++ hostPasses py st.redactHostnames st.knownHosts) text) →
      st.Undone py text) ∧
    (∀ n, st.restore (placeholderText .secret n) = placeholderText .secret n) ∧
    ∀ v, st.forward.get (.secret, v) ≠ none →
      (∀ k ∉ noRestore, st.forward.get (k, norm py.toLower k v) = none) → ¬st.GivesBack v := by
  intro st
  have hvalid : st.Valid py.toLower :=
    (valid_new py.toLower enabled redactHostnames hosts).afterRedacting history
  exact ⟨fun text hsecret hliteral hapart => hvalid.undone hsecret hliteral hapart,
    hvalid.restore_secret, fun v _ hother => hvalid.not_givesBack hother⟩

/-! ### An address in the name of a user -/

/-- Python, as far as the samples need it. -/
def samplePython : Python where
  toLower := .asciiOnly
  ip := .full
  isAlnum := Char.isAlphanum
  isAlnum_ascii _ _ := rfl
  sameIgnoringCase c d := fold c = fold d
  sameIgnoringCase_self _ := decide_eq_true rfl

theorem undone_of_passesApart_sample :
    (new true false []).Undone samplePython "user=julian".toList ∧
      ¬((new true false []).afterRedacting samplePython ["pwd=pw1".toList]).GivesBack "pw1".toList := by
  have hforward : ((new true false []).afterRedacting samplePython ["pwd=pw1".toList]).forward.items =
      [((.secret, "pw1".toList), "<SECRET_1>".toList)] := by decide +kernel
  constructor
  · exact (undone_of_passesApart samplePython true false [] []).1 _ (by decide +kernel)
      (by decide +kernel) (fun _ => by decide +kernel)
  · refine (undone_of_passesApart samplePython true false [] ["pwd=pw1".toList]).2.2 _ ?_ ?_
    · rw [OrderedDict.get, hforward]
      decide
    · intro k hk
      rw [OrderedDict.get, hforward]
      cases k <;> first | decide | exact absurd (by decide) hk

/-- The address is replaced before the name of the user around it. -/
theorem not_undone_sample :
    hasSecret samplePython "user=c/b@c.ch".toList = false ∧
      placeholderRe.foundIn none "user=c/b@c.ch".toList = false ∧
      ¬(new true false []).Undone samplePython "user=c/b@c.ch".toList := by
  have hrestored : ((new true false []).redact samplePython "user=c/b@c.ch".toList).2.restore
      ((new true false []).redact samplePython "user=c/b@c.ch".toList).1 =
        "user=c/<EMAIL_1>".toList := by decide +kernel
  refine ⟨by decide +kernel, by decide +kernel, fun h => ?_⟩
  rw [Undone, hrestored] at h
  exact absurd h.length_eq (by decide)

end Redactor

end Nodeglow.AiRedaction
