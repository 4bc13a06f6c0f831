import Nodeglow.Foundation.Text

/-!
# Base64

Bytes as text in six-bit digits, with the standard alphabet or the one for URLs, and decoding that
accepts nothing else. A text that lacks padding is padded to a multiple of four characters.

## Main definitions

* `Base64.encode`, `Base64.decode` — `b64encode`, and `b64decode` with validation.
* `Base64.urlSafe`, `Base64.decodeAny` — the other alphabet.
* `Base64.pad` — padding.
* `Text.utf8Decode` — the text that bytes in UTF-8 denote.

## Main results

* `Base64.decode_encode` — what was encoded is decoded.
* `Base64.pad_of_append` — padding that was taken away is found again.
* `Base64.decodeAny_urlSafe` — the alphabet does not matter.
* `Text.utf8Decode_utf8Bytes` — the bytes of a text denote it.
-/

namespace Nodeglow

namespace Base64

/-- A digit. -/
def digit (n : ℕ) : Char :=
  if n < 26 then Char.ofNat (65 + n)
  else if n < 52 then Char.ofNat (71 + n)
  else if n < 62 then Char.ofNat (n - 4)
  else if n = 62 then '+'
  else '/'

/-- The value of a digit. -/
def value (c : Char) : Option ℕ := (List.range 64).find? fun n => digit n = c

/-- `base64.b64encode`. -/
def encode : List UInt8 → List Char
  | [] => []
  | [a] => [digit (a.toNat / 4), digit (a.toNat % 4 * 16), '=', '=']
  | [a, b] =>
    [digit (a.toNat / 4), digit (a.toNat % 4 * 16 + b.toNat / 16), digit (b.toNat % 16 * 4), '=']
  | a :: b :: c :: bytes =>
    digit (a.toNat / 4) :: digit (a.toNat % 4 * 16 + b.toNat / 16) ::
      digit (b.toNat % 16 * 4 + c.toNat / 64) :: digit (c.toNat % 64) :: encode bytes

/-- `base64.b64decode(…, validate=True)`. -/
def decode : List Char → Option (List UInt8)
  | [] => some []
  | a :: b :: c :: d :: s => do
    let x ← value a
    let y ← value b
    let first := UInt8.ofNat (x * 4 + y / 16)
    if c = '=' then
      if d = '=' ∧ s = [] then some [first] else none
    else
      let z ← value c
      let second := UInt8.ofNat (y % 16 * 16 + z / 4)
      if d = '=' then
        if s = [] then some [first, second] else none
      else
        let w ← value d
        let bytes ← decode s
        return first :: second :: UInt8.ofNat (z % 4 * 64 + w) :: bytes
  | _ => none

/-- A character in the alphabet for URLs. -/
def urlSafe (c : Char) : Char := if c = '+' then '-' else if c = '/' then '_' else c

/-- A character in the standard alphabet. -/
def standard (c : Char) : Char := if c = '-' then '+' else if c = '_' then '/' else c

/-- Decoding in the alphabet that the text has. -/
def decodeAny (s : List Char) : Option (List UInt8) :=
  decode (if '-' ∈ s ∨ '_' ∈ s then s.map standard else s)

/-- A text padded to a multiple of four characters. -/
def pad (s : List Char) : List Char := s ++ List.replicate ((4 - s.length % 4) % 4) '='

section Encode

variable {bytes : List UInt8} {s : List Char} {c : Char} {n k : ℕ}

theorem value_digit : ∀ n < 64, value (digit n) = some n := by decide

theorem digit_ne : ∀ n < 64, digit n ≠ '=' ∧ digit n ≠ '-' ∧ digit n ≠ '_' ∧
    Text.isSpace (digit n) = false := by decide

/-- A byte from its value. -/
theorem ofNat_eq {a : UInt8} {n : ℕ} (h : n = a.toNat) : UInt8.ofNat n = a := by
  rw [h, UInt8.ofNat_toNat]

/-- **What was encoded** is decoded. -/
theorem decode_encode (bytes : List UInt8) : decode (encode bytes) = some bytes := by
  induction bytes using encode.induct with
  | case1 => rfl
  | case2 a =>
    have ha := a.toNat_lt
    have hfirst : UInt8.ofNat (a.toNat / 4 * 4 + a.toNat % 4 * 16 / 16) = a := ofNat_eq (by omega)
    simp only [encode, decode, value_digit _ (show a.toNat / 4 < 64 by omega),
      value_digit _ (show a.toNat % 4 * 16 < 64 by omega), hfirst, and_self, if_true,
      Option.bind_eq_bind, Option.bind_some]
  | case3 a b =>
    have ha := a.toNat_lt
    have hb := b.toNat_lt
    have hz : b.toNat % 16 * 4 < 64 := by omega
    have hfirst : UInt8.ofNat
        (a.toNat / 4 * 4 + (a.toNat % 4 * 16 + b.toNat / 16) / 16) = a := ofNat_eq (by omega)
    have hsecond : UInt8.ofNat
        ((a.toNat % 4 * 16 + b.toNat / 16) % 16 * 16 + b.toNat % 16 * 4 / 4) = b :=
      ofNat_eq (by omega)
    simp only [encode, decode, value_digit _ (show a.toNat / 4 < 64 by omega),
      value_digit _ (show a.toNat % 4 * 16 + b.toNat / 16 < 64 by omega), value_digit _ hz,
      (digit_ne _ hz).1, hfirst, hsecond, if_false, if_true, Option.bind_eq_bind, Option.bind_some]
  | case4 a b c bytes ih =>
    have ha := a.toNat_lt
    have hb := b.toNat_lt
    have hc := c.toNat_lt
    have hz : b.toNat % 16 * 4 + c.toNat / 64 < 64 := by omega
    have hw : c.toNat % 64 < 64 := by omega
    have hfirst : UInt8.ofNat
        (a.toNat / 4 * 4 + (a.toNat % 4 * 16 + b.toNat / 16) / 16) = a := ofNat_eq (by omega)
    have hsecond : UInt8.ofNat ((a.toNat % 4 * 16 + b.toNat / 16) % 16 * 16 +
        (b.toNat % 16 * 4 + c.toNat / 64) / 4) = b := ofNat_eq (by omega)
    have hthird : UInt8.ofNat
        ((b.toNat % 16 * 4 + c.toNat / 64) % 4 * 64 + c.toNat % 64) = c := ofNat_eq (by omega)
    simp only [encode, decode, value_digit _ (show a.toNat / 4 < 64 by omega),
      value_digit _ (show a.toNat % 4 * 16 + b.toNat / 16 < 64 by omega), value_digit _ hz,
      value_digit _ hw, (digit_ne _ hz).1, (digit_ne _ hw).1, if_false, ih, hfirst, hsecond, hthird,
      Option.bind_eq_bind, Option.bind_some, Option.pure_def]

/-- The characters of a text that was encoded. -/
theorem mem_encode (h : c ∈ encode bytes) : c = '=' ∨ ∃ n < 64, c = digit n := by
  induction bytes using encode.induct with
  | case1 => cases h
  | case2 a =>
    have ha := a.toNat_lt
    simp only [encode, List.mem_cons, List.not_mem_nil, or_false] at h
    rcases h with rfl | rfl | rfl | rfl
    · exact .inr ⟨_, by omega, rfl⟩
    · exact .inr ⟨_, by omega, rfl⟩
    · exact .inl rfl
    · exact .inl rfl
  | case3 a b =>
    have ha := a.toNat_lt
    have hb := b.toNat_lt
    simp only [encode, List.mem_cons, List.not_mem_nil, or_false] at h
    rcases h with rfl | rfl | rfl | rfl
    · exact .inr ⟨_, by omega, rfl⟩
    · exact .inr ⟨_, by omega, rfl⟩
    · exact .inr ⟨_, by omega, rfl⟩
    · exact .inl rfl
  | case4 a b c bytes ih =>
    have ha := a.toNat_lt
    have hb := b.toNat_lt
    have hc := c.toNat_lt
    simp only [encode, List.mem_cons] at h
    rcases h with rfl | rfl | rfl | rfl | h
    · exact .inr ⟨_, by omega, rfl⟩
    · exact .inr ⟨_, by omega, rfl⟩
    · exact .inr ⟨_, by omega, rfl⟩
    · exact .inr ⟨_, by omega, rfl⟩
    · exact ih h

theorem length_encode_mod (bytes : List UInt8) : (encode bytes).length % 4 = 0 := by
  induction bytes using encode.induct with
  | case1 => rfl
  | case2 a => simp [encode]
  | case3 a b => simp [encode]
  | case4 a b c bytes ih =>
    simp only [encode, List.length_cons]
    omega

/-- **Padding** that was taken away is found again. -/
theorem pad_of_append {t : List Char} (ht : t.length % 4 = 0)
    (h : t = s ++ List.replicate k '=') (hk : k < 4) : pad s = t := by
  rw [h, List.length_append, List.length_replicate] at ht
  have hcount : (4 - s.length % 4) % 4 = k := by omega
  rw [pad, hcount, h]

theorem standard_urlSafe : ∀ n < 64, standard (urlSafe (digit n)) = digit n := by decide

theorem urlSafe_digit : ∀ n < 64,
    urlSafe (digit n) = '-' ∨ urlSafe (digit n) = '_' ∨ urlSafe (digit n) = digit n := by decide

/-- **The alphabet** of a text does not matter. -/
theorem decodeAny_encode (bytes : List UInt8) : decodeAny (encode bytes) = some bytes := by
  have hnot {c : Char} (hc : c ∈ encode bytes) : c ≠ '-' ∧ c ≠ '_' := by
    rcases mem_encode hc with rfl | ⟨n, hn, rfl⟩
    · decide
    · exact (digit_ne n hn).2.imp_right And.left
  rw [decodeAny, if_neg, decode_encode]
  rintro (h | h)
  · exact (hnot h).1 rfl
  · exact (hnot h).2 rfl

theorem decodeAny_urlSafe (bytes : List UInt8) :
    decodeAny ((encode bytes).map urlSafe) = some bytes := by
  have hback : ((encode bytes).map urlSafe).map standard = encode bytes := by
    rw [List.map_map]
    refine (List.map_congr_left fun c hc => ?_).trans (List.map_id _)
    rcases mem_encode hc with rfl | ⟨n, hn, rfl⟩
    · rfl
    · exact standard_urlSafe n hn
  rw [decodeAny]
  split_ifs with h
  · rw [hback, decode_encode]
  · -- Without the characters of its own, the text is in both alphabets.
    have hsame : (encode bytes).map urlSafe = encode bytes := by
      refine (List.map_congr_left fun c hc => ?_).trans (List.map_id _)
      obtain ⟨hdash, hline⟩ := not_or.mp h
      have hmem : urlSafe c ∈ (encode bytes).map urlSafe := List.mem_map_of_mem hc
      rcases mem_encode hc with rfl | ⟨n, hn, rfl⟩
      · rfl
      · rcases urlSafe_digit n hn with heq | heq | heq
        · exact absurd (heq ▸ hmem) hdash
        · exact absurd (heq ▸ hmem) hline
        · exact heq
    rw [hsame, decode_encode]

end Encode

end Base64

/-! ### UTF-8 -/

namespace Text

/-- The text that bytes in UTF-8 denote. -/
def utf8Decode (bytes : List UInt8) : Option String := String.fromUTF8? bytes.toByteArray

/-- The bytes that are listed from a position on. -/
theorem toList_loop (b : ByteArray) (n i : ℕ) (hn : b.data.toList.length ≤ i + n)
    (r : List UInt8) : ByteArray.toList.loop b i r = r.reverse ++ b.data.toList.drop i := by
  induction n generalizing i r with
  | zero =>
    have hsize : ¬i < b.size := by
      rw [ByteArray.size, ← Array.length_toList]
      omega
    rw [ByteArray.toList.loop, if_neg hsize, List.drop_eq_nil_of_le (by omega), List.append_nil]
  | succ n ih =>
    rw [ByteArray.toList.loop]
    split_ifs with hi
    · have hlt : i < b.data.toList.length := by rwa [Array.length_toList]
      have hget : b.get! i = b.data.toList[i] := by
        rw [ByteArray.get!, Array.getElem_toList, getElem!_pos b.data i hi]
      rw [ih (i + 1) (by omega), List.drop_eq_getElem_cons hlt, hget, List.reverse_cons,
        List.append_assoc]
      rfl
    · rw [List.drop_eq_nil_of_le (by rw [Array.length_toList]; exact Nat.not_lt.mp hi),
        List.append_nil]

/-- **The bytes of a text** denote it. -/
theorem utf8Decode_utf8Bytes (s : String) : utf8Decode (utf8Bytes s) = some s := by
  have hbytes : (utf8Bytes s).toByteArray = s.toByteArray := by
    have hlist : utf8Bytes s = s.toByteArray.data.toList :=
      toList_loop s.toByteArray _ 0 (Nat.le_add_left _ _) []
    apply ByteArray.ext
    rw [hlist, List.data_toByteArray]
  rw [utf8Decode, hbytes, String.fromUTF8?, dif_pos s.isValidUTF8]
  rfl

end Text

end Nodeglow
