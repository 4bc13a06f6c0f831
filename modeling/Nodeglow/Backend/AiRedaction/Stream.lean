import Nodeglow.Backend.AiRedaction.Placeholders

/-!
# Restoring a stream

An answer arrives in pieces, and a placeholder may be cut between them. The text after the last
opening bracket is held back until the bracket is closed, or until the text has the length of the
longest placeholder that is expected. The pieces restored in this way are the whole answer restored,
exactly if no placeholder is longer than this length. With a hundred million values of a kind there
are such placeholders.

## Main results

* `StreamRestorer.restore_feed` — one piece.
* `Redactor.streamsWhole_iff` — for every redactor, and every answer in any pieces.
* `Redactor.not_streamsWhole_sample` — after a hundred million addresses.

Source: `backend/services/ai_redaction.py`, lines 42–44 and 321–355.
-/

namespace Nodeglow.AiRedaction

/-- `str.rfind`, of one character. -/
def rfind (c : Char) : List Char → Option ℕ
  | [] => none
  | d :: s =>
    match rfind c s with
    | some i => some (i + 1)
    | none => if d = c then some 0 else none

/-- `StreamRestorer`. -/
structure StreamRestorer where
  redactor : Redactor
  buf : List Char

/-- `Redactor.stream_restorer`. -/
def Redactor.streamRestorer (st : Redactor) : StreamRestorer := ⟨st, []⟩

namespace StreamRestorer

/-- `StreamRestorer.feed`. -/
def feed (r : StreamRestorer) (delta : List Char) : List Char × StreamRestorer :=
  let buf := r.buf ++ delta
  match rfind '<' buf with
  | some idx =>
    if '>' ∉ buf.drop idx ∧ buf.length - idx < maxPlaceholderLen then
      (r.redactor.restore (buf.take idx), { r with buf := buf.drop idx })
    else (r.redactor.restore buf, { r with buf := [] })
  | none => (r.redactor.restore buf, { r with buf := [] })

/-- `StreamRestorer.flush`. -/
def flush (r : StreamRestorer) : List Char × StreamRestorer :=
  (r.redactor.restore r.buf, { r with buf := [] })

/-- What is shown of an answer in pieces. -/
def feedAll : StreamRestorer → List (List Char) → List Char
  | r, [] => r.flush.1
  | r, delta :: deltas => (r.feed delta).1 ++ feedAll (r.feed delta).2 deltas

end StreamRestorer

/-- What is shown of an answer in pieces. -/
def Redactor.streamed (st : Redactor) (deltas : List (List Char)) : List Char :=
  st.streamRestorer.feedAll deltas

/-- **A streamed answer** is the whole answer restored, whatever the pieces are. -/
def Redactor.StreamsWhole (st : Redactor) : Prop :=
  ∀ deltas, st.streamed deltas = st.restore deltas.flatten

variable {py : Text.Lower} {st : Redactor} {c : Char} {s ph v : List Char} {i : ℕ}

theorem rfind_eq_none : rfind c s = none ↔ c ∉ s := by
  induction s with
  | nil => simp [rfind]
  | cons d s ih =>
    rw [rfind, List.mem_cons, not_or, ← ih]
    cases hs : rfind c s with
    | some i => simp
    | none => simp [eq_comm]

/-- The last place of a character. -/
theorem exists_of_rfind (h : rfind c s = some i) : ∃ a b, s = a ++ c :: b ∧ c ∉ b ∧ i = a.length := by
  induction s generalizing i with
  | nil => cases h
  | cons d s ih =>
    rw [rfind] at h
    cases hs : rfind c s with
    | some j =>
      rw [hs] at h
      obtain ⟨a, b, rfl, hb, rfl⟩ := ih hs
      exact ⟨d :: a, b, rfl, hb, (Option.some.inj h).symm⟩
    | none =>
      rw [hs] at h
      obtain ⟨rfl, rfl⟩ : d = c ∧ 0 = i := by simpa using h
      exact ⟨[], s, rfl, rfind_eq_none.mp hs, rfl⟩

theorem rfind_append (a : List Char) {b : List Char} (hb : c ∉ b) :
    rfind c (a ++ c :: b) = some a.length := by
  induction a with
  | nil => simp [rfind, rfind_eq_none.mpr hb]
  | cons d a ih => rw [List.cons_append, rfind, ih, List.length_cons]

/-! ### One piece -/

/-- **The placeholders are short**: those that are replaced by another text are not longer than a
stream waits for. -/
def Redactor.Short (st : Redactor) : Prop :=
  ∀ ph v, st.reverse.get ph = some v → ph.length ≤ maxPlaceholderLen ∨ v = ph

namespace StreamRestorer

theorem bracket_mem {u w : List Char} (hph : IsPlaceholder (u ++ w)) (hne : u ≠ []) : '<' ∈ u := by
  obtain ⟨body, hbody, -⟩ := delimited_placeholderRe.shape _ hph
  obtain ⟨d, u, rfl⟩ := List.exists_cons_of_ne_nil hne
  rw [← (List.cons.inj hbody).1]
  exact List.mem_cons_self

/-- What begins in the released text and goes on after it is not replaced. -/
theorem original_of_released (hshort : st.Short) {a b u w : List Char} (hu : u <:+ a ++ '<' :: b)
    (hb : '<' ∉ b) (hne : u ≠ []) (hw : w ≠ []) (hph : IsPlaceholder (u ++ w))
    (hreleased : '>' ∈ '<' :: b ∨ maxPlaceholderLen ≤ ('<' :: b).length) :
    st.original (u ++ w) = u ++ w := by
  obtain ⟨hclose, -⟩ := delimited_placeholderRe.notMem_of_cut hph hne hw
  have hopen := bracket_mem hph hne
  have hsuffix : '<' :: b <:+ u := by
    rcases List.suffix_or_suffix_of_suffix (List.suffix_append a ('<' :: b)) hu with hle | hle
    · exact hle
    · rcases List.suffix_cons_iff.mp hle with rfl | hle
      · exact List.suffix_rfl
      · exact absurd (hle.subset hopen) hb
  rcases hreleased with hmem | hlen
  · exact absurd (hsuffix.subset hmem) hclose
  · have hlong : maxPlaceholderLen < (u ++ w).length := by
      have hle := hsuffix.length_le
      have hpos := List.length_pos_of_ne_nil hw
      rw [List.length_append]
      omega
    rw [Redactor.original]
    cases hget : st.reverse.get (u ++ w) with
    | none => rfl
    | some v => exact (hshort _ v hget).resolve_left (by omega)

/-- **One piece** of an answer: what is shown, and what is held back with the rest, are restored as
the whole. -/
theorem restore_feed (r : StreamRestorer) (hshort : r.redactor.Short) (delta rest : List Char) :
    r.redactor.restore (r.buf ++ delta ++ rest) =
      (r.feed delta).1 ++ r.redactor.restore ((r.feed delta).2.buf ++ rest) := by
  rw [feed]
  cases hfind : rfind '<' (r.buf ++ delta) with
  | none =>
    rw [rfind_eq_none] at hfind
    simp only [Redactor.restore_eq]
    exact delimited_placeholderRe.replace_append fun u w hu hne _ _ hph =>
      absurd (hu.subset (bracket_mem hph hne)) hfind
  | some idx =>
    obtain ⟨a, b, hbuf, hb, rfl⟩ := exists_of_rfind hfind
    simp only [hbuf, List.drop_left, List.take_left]
    split_ifs with hheld
    · simp only [Redactor.restore_eq]
      rw [List.append_assoc]
      refine delimited_placeholderRe.replace_append fun u w _ hne hw hwne hph => ?_
      -- What is held back begins with the bracket, which cannot be inside of a placeholder.
      obtain ⟨-, hopen⟩ := delimited_placeholderRe.notMem_of_cut hph hne hwne
      obtain ⟨d, w, rfl⟩ := List.exists_cons_of_ne_nil hwne
      rw [(List.cons_prefix_cons.mp hw).1] at hopen
      exact absurd List.mem_cons_self hopen
    · simp only [Redactor.restore_eq]
      refine delimited_placeholderRe.replace_append fun u w hu hne _ hwne hph => ?_
      refine original_of_released hshort hu hb hne hwne hph ?_
      rcases not_and_or.mp hheld with hclosed | hlong
      · exact .inl (not_not.mp hclosed)
      · refine .inr ?_
        rw [List.length_append] at hlong
        omega

theorem redactor_feed (r : StreamRestorer) (delta : List Char) :
    (r.feed delta).2.redactor = r.redactor := by
  simp only [feed]
  split
  · split_ifs <;> rfl
  · rfl

/-- **All pieces**, from what is held back. -/
theorem feedAll_eq (r : StreamRestorer) (hshort : r.redactor.Short) (deltas : List (List Char)) :
    r.feedAll deltas = r.redactor.restore (r.buf ++ deltas.flatten) := by
  induction deltas generalizing r with
  | nil =>
    rw [List.flatten_nil, List.append_nil]
    rfl
  | cons delta deltas ih =>
    have hnext : (r.feed delta).2.redactor.Short := by rwa [redactor_feed]
    rw [feedAll, ih _ hnext, redactor_feed, List.flatten_cons, ← List.append_assoc,
      r.restore_feed hshort]

end StreamRestorer

/-! ### Whole answers -/

namespace Redactor

/-- A text without one of the brackets has nothing to restore. -/
theorem restore_of_notMem (st : Redactor) (h : '<' ∉ s ∨ '>' ∉ s) : st.restore s = s := by
  rw [restore_eq]
  rcases h with h | h
  · have happend := delimited_placeholderRe.replace_append_of_notMem (g := st.original) h []
    rw [List.append_nil] at happend
    rw [happend]
    exact List.append_nil s
  · exact delimited_placeholderRe.replace_of_notMem h

/-- A long placeholder whose last character arrives later is shown as it is. -/
theorem streamed_cut {body : List Char} (ho : '<' ∉ body) (hc : '>' ∉ body)
    (hlong : maxPlaceholderLen < ('<' :: (body ++ ['>'])).length) :
    st.streamed ['<' :: body, ['>']] = '<' :: (body ++ ['>']) := by
  have hclose : '>' ∉ '<' :: body := by
    rw [List.mem_cons, not_or]
    exact ⟨by decide, hc⟩
  have hfirst : st.streamRestorer.feed ('<' :: body) = ('<' :: body, ⟨st, []⟩) := by
    have hfind : rfind '<' ('<' :: body) = some 0 := rfind_append [] ho
    have hfull : ¬('>' ∉ '<' :: body ∧ ('<' :: body).length - 0 < maxPlaceholderLen) := by
      rintro ⟨-, hlt⟩
      simp only [List.length_cons, List.length_append, List.length_nil] at hlong hlt
      omega
    simp only [StreamRestorer.feed, streamRestorer, List.nil_append, hfind, List.drop_zero,
      if_neg hfull, st.restore_of_notMem (.inr hclose)]
  have hsecond : StreamRestorer.feed ⟨st, []⟩ ['>'] = (['>'], ⟨st, []⟩) := by
    have hfind : rfind '<' ['>'] = none := by decide
    have hopen : '<' ∉ ['>'] := by decide
    simp only [StreamRestorer.feed, List.nil_append, hfind, st.restore_of_notMem (.inl hopen)]
  have hflush : (StreamRestorer.flush ⟨st, []⟩).1 = [] :=
    st.restore_of_notMem (.inl List.not_mem_nil)
  rw [streamed, StreamRestorer.feedAll, StreamRestorer.feedAll, StreamRestorer.feedAll, hfirst, hsecond,
    hflush]
  simp

theorem Valid.isPlaceholder (h : st.Valid py) (hget : st.reverse.get ph = some v) :
    IsPlaceholder ph := by
  obtain ⟨k, -, hforward⟩ := h.issued hget
  obtain ⟨n, -, rfl⟩ := h.numbered hforward
  exact isPlaceholder_placeholderText k n

/-- A streamed answer is the whole answer restored if and only if no placeholder is longer than a
stream waits for. -/
theorem Valid.streamsWhole_iff_short (h : st.Valid py) : st.StreamsWhole ↔ st.Short := by
  constructor
  · intro hwhole ph v hget
    have hph := h.isPlaceholder hget
    by_contra! hlong
    obtain ⟨body, rfl, ho, hc⟩ := delimited_placeholderRe.shape ph hph
    have hcut := hwhole ['<' :: body, ['>']]
    have hflatten : ['<' :: body, ['>']].flatten = '<' :: (body ++ ['>']) := by simp
    rw [streamed_cut ho hc hlong.1, hflatten, restore_placeholder _ hph, original, hget] at hcut
    exact hlong.2 hcut.symm
  · intro hshort deltas
    exact StreamRestorer.feedAll_eq ⟨st, []⟩ hshort deltas

/-- **Streaming**: for every redactor, a streamed answer is the whole answer restored, whatever the
answer and its pieces are, if and only if no placeholder is longer than a stream waits for. -/
theorem streamsWhole_iff (py : Text.Lower) (enabled redactHostnames : Bool) (hosts : List (List Char))
    (issued : List (Kind × List Char)) :
    let st := (new enabled redactHostnames hosts).issueAll py issued
    st.StreamsWhole ↔ ∀ ph v, st.reverse.get ph = some v → ph.length ≤ maxPlaceholderLen ∨ v = ph :=
  ((valid_new py enabled redactHostnames hosts).issueAll issued).streamsWhole_iff_short

/-! ### A hundred million addresses -/

/-- An address for a number. -/
def sampleEmail (i : ℕ) : List Char := Nat.toDigits 10 i ++ "@nodeglow.test".toList

/-- A redactor that was given the first `n` addresses. -/
def sampleRedactor (n : ℕ) : Redactor :=
  (new true false []).issueAll .asciiOnly ((List.range n).map fun i => (.email, sampleEmail i))

theorem sampleEmail_injective {i j : ℕ} (h : sampleEmail i = sampleEmail j) : i = j := by
  have hdigits := congrArg Text.decimalInt (List.append_cancel_right h)
  rwa [Text.decimalInt_toDigits, Text.decimalInt_toDigits] at hdigits

theorem norm_sampleEmail (i : ℕ) : norm .asciiOnly .email (sampleEmail i) = sampleEmail i := by
  have hlower : ∀ c ∈ sampleEmail i, c.toLower = c := by
    intro c hc
    rcases List.mem_append.mp hc with hc | hc
    · have hdigit := Nat.isDigit_of_mem_toDigits (by decide) (by decide) hc
      have hhigh : c.toNat ≤ 57 := (Char.isDigit_iff_toNat.mp hdigit).2
      apply Char.toNat_inj.mp
      rw [Text.toNat_toLower, if_neg]
      omega
    · have hdomain : ∀ c ∈ "@nodeglow.test".toList, c.toLower = c := Text.forall_mem_of_all rfl
      exact hdomain c hc
  rw [norm, if_pos (by decide), lower]
  simp only [Text.Lower.asciiOnly, Text.asciiLower, String.toList_ofList]
  exact (List.map_congr_left hlower).trans (List.map_id _)

theorem sampleRedactor_succ (n : ℕ) : sampleRedactor (n + 1) =
    ((sampleRedactor n).placeholder .asciiOnly .email (sampleEmail n)).2 := by
  rw [sampleRedactor, List.range_succ, List.map_append, issueAll, List.foldl_append]
  rfl

/-- Each address is new. -/
theorem counter_sampleRedactor (n : ℕ) : (sampleRedactor n).counter .email = n ∧
    ∀ i, n ≤ i → (sampleRedactor n).forward.get (.email, sampleEmail i) = none := by
  induction n with
  | zero => exact ⟨rfl, fun _ _ => rfl⟩
  | succ n ih =>
    have hnone : (sampleRedactor n).forward.get
        (.email, norm .asciiOnly .email (sampleEmail n)) = none := by
      rw [norm_sampleEmail, ih.2 n le_rfl]
    rw [sampleRedactor_succ, placeholder_of_none hnone]
    refine ⟨by rw [counter_issue, if_pos rfl, ih.1], fun i hi => ?_⟩
    rw [forward_issue, if_neg, ih.2 i (by omega)]
    rw [norm_sampleEmail]
    intro heq
    have := sampleEmail_injective (Prod.mk.inj heq).2
    omega

theorem reverse_sampleRedactor (n : ℕ) :
    (sampleRedactor (n + 1)).reverse.get (placeholderText .email (n + 1)) = some (sampleEmail n) := by
  obtain ⟨hcounter, hnone⟩ := counter_sampleRedactor n
  rw [sampleRedactor_succ, placeholder_of_none (by rw [norm_sampleEmail, hnone n le_rfl]),
    reverse_issue, hcounter, if_pos ⟨rfl, by decide⟩]

/-- After a hundred million addresses the last placeholder is too long. -/
theorem not_streamsWhole_sample : ¬(sampleRedactor 100000000).StreamsWhole := by
  have hvalid : (sampleRedactor 100000000).Valid .asciiOnly := (valid_new _ _ _ _).issueAll _
  intro hwhole
  rcases hvalid.streamsWhole_iff_short.mp hwhole _ _ (reverse_sampleRedactor 99999999) with hlen | heq
  · revert hlen
    decide
  · revert heq
    decide

end Redactor

end Nodeglow.AiRedaction
