import Mathlib.Data.List.DropRight
import Mathlib.Data.String.Basic

/-!
# Text operations

The operations on text that the modelled programs take from their standard libraries: trimming by
the Unicode property White_Space, decimal digits, ASCII case folding, hexadecimal encoding of bytes,
and Python's ways of taking a text apart, at every run of white space and at the first few
separators.

## Main definitions

* `Text.isWhitespace`, `Text.trim`, `Text.isSpace`, `Text.strip`, `Text.splitLines`.
* `Text.decimalValue`, `Text.isDecimal`, `Text.decimalInt`, `Text.parseInt`.
* `Text.asciiLower`, `Text.Lower`, `Text.eqIgnoreAsciiCase`, `Text.utf8Bytes`.
* `Text.hexEncode`, `Text.hexDecode`.
* `Text.words`, `Text.splitMax`, `Text.split` — `str.split()`, `str.split(sep, maxsplit)` and
  `str.split(sep)`.

## Main results

* `Text.hexDecode_hexEncode`, `Text.asciiLower_hexEncode`, `Text.trim_hexEncode` — the hexadecimal
  form of bytes is in lower case, has nothing to trim, and can be read back.
* `Text.append_cons_inj` — what stands before the first separator, and what stands after it.
* `Text.flatMap_words` — the words have all characters but the white space.
-/

namespace Nodeglow.Text

/-- The Unicode property White_Space. -/
def isWhitespace (c : Char) : Bool :=
  let n := c.toNat
  (9 ≤ n && n ≤ 13) || n == 0x20 || n == 0x85 || n == 0xA0 || n == 0x1680 ||
    (0x2000 ≤ n && n ≤ 0x200A) || n == 0x2028 || n == 0x2029 || n == 0x202F || n == 0x205F ||
    n == 0x3000

/-- The text without the characters that satisfy `p` at its ends. -/
def trimMatches (p : Char → Bool) (s : String) : String :=
  String.ofList ((s.toList.dropWhile p).rdropWhile p)

/-- The text without white space at its ends. -/
def trim (s : String) : String := trimMatches isWhitespace s

/-- White space in the sense of Python's `str.isspace`: also the information separators. -/
def isSpace (c : Char) : Bool := isWhitespace c || (28 ≤ c.toNat && c.toNat ≤ 31)

/-- `str.strip`. -/
def strip (s : String) : String := trimMatches isSpace s

/-- The text without the characters that satisfy `p` at its start. -/
def dropMatches (p : Char → Bool) (s : String) : String := String.ofList (s.toList.dropWhile p)

/-- The text without the characters that satisfy `p` at its end. -/
def dropMatchesRight (p : Char → Bool) (s : String) : String :=
  String.ofList (s.toList.rdropWhile p)

/-- The decimal digits zero of Unicode; the digits one to nine follow each of them. -/
def decimalZeros : List ℕ :=
  [0x30, 0x660, 0x6F0, 0x7C0, 0x966, 0x9E6, 0xA66, 0xAE6, 0xB66, 0xBE6, 0xC66, 0xCE6, 0xD66, 0xDE6,
    0xE50, 0xED0, 0xF20, 0x1040, 0x1090, 0x17E0, 0x1810, 0x1946, 0x19D0, 0x1A80, 0x1A90, 0x1B50,
    0x1BB0, 0x1C40, 0x1C50, 0xA620, 0xA8D0, 0xA900, 0xA9D0, 0xA9F0, 0xAA50, 0xABF0, 0xFF10, 0x104A0,
    0x10D30, 0x11066, 0x110F0, 0x11136, 0x111D0, 0x112F0, 0x11450, 0x114D0, 0x11650, 0x116C0,
    0x11730, 0x118E0, 0x11950, 0x11C50, 0x11D50, 0x11DA0, 0x11F50, 0x16A60, 0x16AC0, 0x16B50,
    0x1D7CE, 0x1D7D8, 0x1D7E2, 0x1D7EC, 0x1D7F6, 0x1E140, 0x1E2F0, 0x1E4F0, 0x1E950, 0x1FBF0]

/-- The value of a decimal digit. -/
def decimalValue (c : Char) : Option ℕ :=
  (decimalZeros.find? fun z => z ≤ c.toNat && c.toNat < z + 10).map fun z => c.toNat - z

/-- Python's `str.isdecimal`, of one character. -/
def isDecimal (c : Char) : Bool := (decimalValue c).isSome

/-- Python's `int` of decimal digits. -/
def decimalInt (digits : List Char) : ℕ :=
  digits.foldl (fun n c => 10 * n + (decimalValue c).getD 0) 0

/-- Python's `int(text)`: white space around the number is left out, a sign may stand before it and
underscores between its digits, of which there may be 4300. -/
def parseInt (text : String) : Option ℤ :=
  let unsigned (digits : List Char) : Option ℤ :=
    if (digits.splitOn '_').all (fun group => group ≠ [] ∧ group.all isDecimal) ∧
        (digits.filter isDecimal).length ≤ 4300 then
      some (decimalInt (digits.filter isDecimal))
    else none
  match (trim text).toList with
  | '-' :: digits => (unsigned digits).map Neg.neg
  | '+' :: digits => unsigned digits
  | digits => unsigned digits

/-- The characters that end a line for Python's `str.splitlines`. -/
def isLineBoundary (c : Char) : Bool :=
  let n := c.toNat
  (10 ≤ n && n ≤ 13) || (28 ≤ n && n ≤ 30) || n == 0x85 || n == 0x2028 || n == 0x2029

/-- The lines of a list of characters; `line` holds the current line in reverse. -/
def splitLinesAux : List Char → List Char → List String
  | [], [] => []
  | [], line => [String.ofList line.reverse]
  | '\r' :: '\n' :: cs, line => String.ofList line.reverse :: splitLinesAux cs []
  | c :: cs, line =>
    if isLineBoundary c then String.ofList line.reverse :: splitLinesAux cs []
    else splitLinesAux cs (c :: line)

/-- `str.splitlines`. -/
def splitLines (s : String) : List String := splitLinesAux s.toList []

/-- The last `n` characters of a text. -/
def lastChars (n : ℕ) (s : String) : String :=
  String.ofList (s.toList.drop (s.toList.length - n))

/-- The text with the letters `A` to `Z` in lower case. -/
def asciiLower (s : String) : String := String.ofList (s.toList.map Char.toLower)

/-- Equality up to the case of ASCII letters. -/
def eqIgnoreAsciiCase (s t : String) : Bool := asciiLower s == asciiLower t

/-- The bytes of a text in UTF-8. -/
def utf8Bytes (s : String) : List UInt8 := s.toByteArray.toList

/-- The value of a hexadecimal digit. -/
def hexValue (c : Char) : Option UInt8 :=
  if '0' ≤ c ∧ c ≤ '9' then some (.ofNat (c.toNat - 48))
  else if 'a' ≤ c ∧ c ≤ 'f' then some (.ofNat (c.toNat - 87))
  else if 'A' ≤ c ∧ c ≤ 'F' then some (.ofNat (c.toNat - 55))
  else none

/-- The bytes that a list of hexadecimal digits denotes, two digits for each byte. -/
def hexDecodeList : List Char → Option (List UInt8)
  | [] => some []
  | [_] => none
  | hi :: lo :: cs => do
      let h ← hexValue hi
      let l ← hexValue lo
      let rest ← hexDecodeList cs
      return (16 * h + l) :: rest

/-- The bytes that a hexadecimal text denotes. -/
def hexDecode (s : String) : Option (List UInt8) := hexDecodeList s.toList

/-- The hexadecimal digit of a value below 16, in lower case. -/
def hexDigit (n : ℕ) : Char := if n < 10 then Char.ofNat (48 + n) else Char.ofNat (87 + n)

/-- The hexadecimal form of a list of bytes, in lower case. -/
def hexEncode (bytes : List UInt8) : String :=
  String.ofList (bytes.flatMap fun b => [hexDigit (b.toNat / 16), hexDigit (b.toNat % 16)])

/-! ### Hexadecimal round trip -/

theorem hexValue_hexDigit : ∀ n < 16, hexValue (hexDigit n) = some (.ofNat n) := by decide

theorem toLower_hexDigit : ∀ n < 16, (hexDigit n).toLower = hexDigit n := by decide

theorem isWhitespace_hexDigit : ∀ n < 16, isWhitespace (hexDigit n) = false := by decide

theorem toList_hexEncode (bytes : List UInt8) :
    (hexEncode bytes).toList =
      bytes.flatMap fun b => [hexDigit (b.toNat / 16), hexDigit (b.toNat % 16)] :=
  String.toList_ofList

/-- Every character of a hexadecimal form is a digit. -/
theorem exists_hexDigit_of_mem {bytes : List UInt8} {c : Char} (h : c ∈ (hexEncode bytes).toList) :
    ∃ n < 16, c = hexDigit n := by
  rw [toList_hexEncode, List.mem_flatMap] at h
  obtain ⟨b, -, hc⟩ := h
  have hb := b.toNat_lt
  rcases List.mem_cons.mp hc with rfl | hc
  · exact ⟨b.toNat / 16, by omega, rfl⟩
  · rw [List.mem_singleton.mp hc]
    exact ⟨b.toNat % 16, by omega, rfl⟩

theorem hexDecodeList_flatMap (bytes : List UInt8) :
    hexDecodeList (bytes.flatMap fun b => [hexDigit (b.toNat / 16), hexDigit (b.toNat % 16)]) =
      some bytes := by
  induction bytes with
  | nil => rfl
  | cons b bytes ih =>
    have hb := b.toNat_lt
    have hbyte : 16 * UInt8.ofNat (b.toNat / 16) + UInt8.ofNat (b.toNat % 16) = b := by
      apply UInt8.toNat_inj.mp
      simp only [UInt8.toNat_add, UInt8.toNat_mul, UInt8.toNat_ofNat, UInt8.toNat_ofNat']
      omega
    simp [hexDecodeList, hexValue_hexDigit _ (show b.toNat / 16 < 16 by omega),
      hexValue_hexDigit _ (show b.toNat % 16 < 16 by omega), ih, hbyte]

@[simp]
theorem hexDecode_hexEncode (bytes : List UInt8) : hexDecode (hexEncode bytes) = some bytes := by
  rw [hexDecode, toList_hexEncode, hexDecodeList_flatMap]

@[simp]
theorem asciiLower_hexEncode (bytes : List UInt8) :
    asciiLower (hexEncode bytes) = hexEncode bytes := by
  have hmap : (hexEncode bytes).toList.map Char.toLower = (hexEncode bytes).toList := by
    conv_rhs => rw [← List.map_id (hexEncode bytes).toList]
    refine List.map_congr_left fun c hc => ?_
    obtain ⟨n, hn, rfl⟩ := exists_hexDigit_of_mem hc
    exact toLower_hexDigit n hn
  rw [asciiLower, hmap, String.ofList_toList]

@[simp]
theorem trim_hexEncode (bytes : List UInt8) : trim (hexEncode bytes) = hexEncode bytes := by
  have hnot (c : Char) (hc : c ∈ (hexEncode bytes).toList) : ¬isWhitespace c = true := by
    obtain ⟨n, hn, rfl⟩ := exists_hexDigit_of_mem hc
    simp [isWhitespace_hexDigit n hn]
  rw [trim, trimMatches, List.dropWhile_eq_self_iff.mpr fun _ => hnot _ (List.getElem_mem _),
    List.rdropWhile_eq_self_iff.mpr fun hl => hnot _ (List.getLast_mem hl), String.ofList_toList]

/-! ### Separators -/

theorem takeWhile_append_cons {α : Type*} [DecidableEq α] {c : α} {s : List α} (hs : c ∉ s)
    (t : List α) : (s ++ c :: t).takeWhile (· ≠ c) = s := by
  have hne : ∀ a ∈ s, a ≠ c := fun a ha hac => hs (hac ▸ ha)
  rw [List.takeWhile_append_of_pos (by simpa using hne), List.takeWhile_cons_of_neg (by simp),
    List.append_nil]

/-- The first item that is not of a class divides a list in one way only. -/
theorem append_cons_unique {α : Type*} {p : α → Bool} {c c' : α} {s s' t t' : List α}
    (hs : ∀ a ∈ s, p a = true) (hc : p c = false) (hs' : ∀ a ∈ s', p a = true) (hc' : p c' = false)
    (h : s ++ c :: t = s' ++ c' :: t') : s = s' ∧ c = c' ∧ t = t' := by
  have htake {c : α} {s t : List α} (hs : ∀ a ∈ s, p a = true) (hc : p c = false) :
      (s ++ c :: t).takeWhile p = s := by
    rw [List.takeWhile_append_of_pos hs, List.takeWhile_cons_of_neg (by simp [hc]), List.append_nil]
  obtain rfl : s = s' := by rw [← htake (t := t) hs hc, h, htake hs' hc']
  have hrest := List.append_cancel_left h
  exact ⟨rfl, List.cons.inj hrest⟩

/-- The first separator divides a text in one way only. -/
theorem append_cons_inj {α : Type*} [DecidableEq α] {c : α} {s s' t t' : List α} (hs : c ∉ s)
    (hs' : c ∉ s') : s ++ c :: t = s' ++ c :: t' ↔ s = s' ∧ t = t' := by
  have hclass {l : List α} (hl : c ∉ l) : ∀ a ∈ l, decide (a ≠ c) = true :=
    fun a ha => decide_eq_true fun hac => hl (hac ▸ ha)
  constructor
  · intro h
    obtain ⟨hbefore, -, hafter⟩ := append_cons_unique (hclass hs) (by simp) (hclass hs') (by simp) h
    exact ⟨hbefore, hafter⟩
  · rintro ⟨rfl, rfl⟩
    rfl

/-- There is such a character, unless all are of the class. -/
theorem exists_eq_append_cons {p : Char → Bool} {d : Char} {s : List Char} (hd : d ∈ s)
    (hp : p d = false) : ∃ x c t, s = x ++ c :: t ∧ (∀ a ∈ x, p a = true) ∧ p c = false := by
  obtain ⟨c, hc⟩ : ∃ c, s.find? (fun a => !p a) = some c :=
    Option.isSome_iff_exists.mp (List.find?_isSome.mpr ⟨d, hd, by simp [hp]⟩)
  obtain ⟨hpc, x, t, rfl, hx⟩ := List.find?_eq_some_iff_append.mp hc
  exact ⟨x, c, t, rfl, by simpa using hx, by simpa using hpc⟩

/-! ### Trimming -/

/-- Only what follows a character that stays is dropped. -/
theorem rdropWhile_append_cons {p : Char → Bool} {c : Char} {s t : List Char} (hc : p c = false) :
    (s ++ c :: t).rdropWhile p = s ++ c :: t.rdropWhile p := by
  induction t using List.reverseRecOn with
  | nil => exact List.rdropWhile_concat_neg p s c (by simp [hc])
  | append_singleton t d ih =>
    rw [← List.cons_append, ← List.append_assoc]
    by_cases hd : p d = true
    · rw [List.rdropWhile_concat_pos _ _ _ hd, List.rdropWhile_concat_pos _ _ _ hd, ih]
    · rw [List.rdropWhile_concat_neg _ _ _ hd, List.rdropWhile_concat_neg _ _ _ hd]
      simp

/-- What is dropped at the end of a text can be dropped before. -/
theorem rdropWhile_append_of_pos {p : Char → Bool} {s t : List Char} (ht : ∀ c ∈ t, p c = true) :
    (s ++ t).rdropWhile p = s.rdropWhile p := by
  rw [List.rdropWhile, List.reverse_append, List.dropWhile_append_of_pos (by simpa using ht)]
  rfl

/-- A text is trimmed where both of its ends stay. -/
theorem strip_eq_self_iff {s : String} :
    strip s = s ↔ s.toList.dropWhile isSpace = s.toList ∧ s.toList.rdropWhile isSpace = s.toList := by
  have hlist : strip s = s ↔ (s.toList.dropWhile isSpace).rdropWhile isSpace = s.toList := by
    rw [← String.toList_inj, strip, trimMatches, String.toList_ofList]
  rw [hlist]
  constructor
  · intro h
    have hend := (List.rdropWhile_prefix isSpace (s.toList.dropWhile isSpace)).length_le
    rw [h] at hend
    have hstart : s.toList.dropWhile isSpace = s.toList :=
      (List.dropWhile_suffix isSpace).eq_of_length_le hend
    exact ⟨hstart, by rwa [hstart] at h⟩
  · rintro ⟨hstart, hend⟩
    rw [hstart, hend]

/-- Both ends can be trimmed in any order. -/
theorem dropWhile_rdropWhile (p : Char → Bool) (s : List Char) :
    (s.rdropWhile p).dropWhile p = (s.dropWhile p).rdropWhile p := by
  by_cases hall : ∀ c ∈ s, p c = true
  · rw [List.rdropWhile_eq_nil_iff.mpr hall, List.dropWhile_eq_nil_iff.mpr hall]
    rfl
  · push Not at hall
    obtain ⟨d, hd, hpd⟩ := hall
    obtain ⟨x, c, t, rfl, hx, hc⟩ := exists_eq_append_cons hd (eq_false_of_ne_true hpd)
    have hdrop (t : List Char) : (x ++ c :: t).dropWhile p = c :: t := by
      rw [List.dropWhile_append_of_pos hx, List.dropWhile_cons_of_neg (by simp [hc])]
    have hend : (c :: t).rdropWhile p = c :: t.rdropWhile p := rdropWhile_append_cons (s := []) hc
    rw [rdropWhile_append_cons hc, hdrop, hdrop, hend]

/-- What stands between characters that are trimmed. -/
theorem trimMatches_append {p : Char → Bool} {before s after : String}
    (hbefore : ∀ c ∈ before.toList, p c = true) (hs : ∀ c ∈ s.toList, p c = false)
    (hafter : ∀ c ∈ after.toList, p c = true) : trimMatches p (before ++ (s ++ after)) = s := by
  have hnot : ∀ c ∈ s.toList, ¬p c = true := fun c hc => by simp [hs c hc]
  have hend : s.toList.rdropWhile p = s.toList :=
    List.rdropWhile_eq_self_iff.mpr fun hl => hnot _ (List.getLast_mem hl)
  have hstart : s.toList.dropWhile p = s.toList :=
    List.dropWhile_eq_self_iff.mpr fun _ => hnot _ (List.getElem_mem _)
  rw [trimMatches, String.toList_append, String.toList_append,
    List.dropWhile_append_of_pos hbefore, ← dropWhile_rdropWhile, rdropWhile_append_of_pos hafter,
    hend, hstart, String.ofList_toList]

/-- A property of given characters. -/
theorem forall_mem_of_all {p : Char → Prop} [DecidablePred p] {cs : List Char}
    (h : (cs.all fun c => decide (p c)) = true) : ∀ c ∈ cs, p c := fun c hc =>
  of_decide_eq_true (List.all_eq_true.mp h c hc)

theorem isSpace_of_isWhitespace {c : Char} (h : isWhitespace c = true) : isSpace c = true := by
  rw [isSpace, h, Bool.true_or]

theorem strip_of_forall {s : String} (h : ∀ c ∈ s.toList, isSpace c = false) : strip s = s := by
  have hnot : ∀ c ∈ s.toList, ¬isSpace c = true := fun c hc => by simp [h c hc]
  rw [strip_eq_self_iff]
  exact ⟨List.dropWhile_eq_self_iff.mpr fun _ => hnot _ (List.getElem_mem _),
    List.rdropWhile_eq_self_iff.mpr fun hl => hnot _ (List.getLast_mem hl)⟩

/-- What `trim` leaves of a text is what `strip` leaves of it, unless `strip` trims more. -/
theorem strip_eq_trim {s : String} (h : strip (trim s) = trim s) : strip s = trim s := by
  obtain ⟨hstart, hend⟩ := strip_eq_self_iff.mp h
  rw [trim, trimMatches, String.toList_ofList] at hstart hend
  rw [strip, trimMatches, trim, trimMatches]
  congr 1
  set d := s.toList.dropWhile isWhitespace
  set t := d.rdropWhile isWhitespace
  have hs : s.toList = s.toList.takeWhile isWhitespace ++ (t ++ d.rtakeWhile isWhitespace) := by
    rw [List.rdropWhile_append_rtakeWhile, List.takeWhile_append_dropWhile]
  have hbefore : ∀ c ∈ s.toList.takeWhile isWhitespace, isSpace c = true := fun c hc =>
    isSpace_of_isWhitespace (List.mem_takeWhile_imp hc)
  have hafter : ∀ c ∈ d.rtakeWhile isWhitespace, isSpace c = true := fun c hc =>
    isSpace_of_isWhitespace (List.mem_rtakeWhile_imp hc)
  have hdrop : s.toList.dropWhile isSpace =
      (t ++ d.rtakeWhile isWhitespace).dropWhile isSpace := by
    conv_lhs => rw [hs]
    exact List.dropWhile_append_of_pos hbefore
  have hback : (t ++ d.rtakeWhile isWhitespace).rdropWhile isSpace = t := by
    rw [rdropWhile_append_of_pos hafter]
    exact hend
  rw [hdrop, ← dropWhile_rdropWhile, hback, hstart]

/-- Trimming adds no character. -/
theorem strip_subset (s : String) : (strip s).toList ⊆ s.toList := by
  rw [strip, trimMatches, String.toList_ofList]
  exact List.Subset.trans (List.rdropWhile_prefix isSpace _).subset
    (List.dropWhile_suffix isSpace).subset

/-- Only white space is trimmed. -/
theorem mem_strip {s : String} {c : Char} (hc : c ∈ s.toList) (hspace : isSpace c = false) :
    c ∈ (strip s).toList := by
  have hdrop {l : List Char} (hl : c ∈ l) : c ∈ l.dropWhile isSpace := by
    rw [← List.takeWhile_append_dropWhile (p := isSpace) (l := l), List.mem_append] at hl
    exact hl.resolve_left fun hmem => absurd (List.mem_takeWhile_imp hmem) (by simp [hspace])
  rw [strip, trimMatches, String.toList_ofList, List.rdropWhile, List.mem_reverse]
  exact hdrop (List.mem_reverse.mpr (hdrop hc))

/-- Trimming takes white space only. -/
theorem filter_strip (s : String) :
    (strip s).toList.filter (fun c => !isSpace c) = s.toList.filter fun c => !isSpace c := by
  have hdrop (l : List Char) :
      (l.dropWhile isSpace).filter (fun c => !isSpace c) = l.filter fun c => !isSpace c := by
    have hnone : (l.takeWhile isSpace).filter (fun c => !isSpace c) = [] :=
      List.filter_eq_nil_iff.mpr fun c hc => by simp [List.mem_takeWhile_imp hc]
    conv_rhs => rw [← List.takeWhile_append_dropWhile (p := isSpace) (l := l), List.filter_append]
    rw [hnone, List.nil_append]
  rw [strip, trimMatches, String.toList_ofList, List.rdropWhile, List.filter_reverse, hdrop,
    List.filter_reverse, List.reverse_reverse, hdrop]

theorem strip_strip (s : String) : strip (strip s) = strip s := by
  rw [strip_eq_self_iff, strip, trimMatches, String.toList_ofList, dropWhile_rdropWhile,
    List.dropWhile_idempotent, List.rdropWhile_idempotent]
  exact ⟨rfl, rfl⟩

/-- A text stays where it starts with a text that stays, and ends with one. -/
theorem strip_of_append {s a b : String} (ha : strip a = a) (hb : strip b = b) (hne : a ≠ "")
    (hne' : b ≠ "") (hstart : a.toList <+: s.toList) (hend : b.toList <:+ s.toList) :
    strip s = s := by
  obtain ⟨t, ht⟩ := hstart
  obtain ⟨t', ht'⟩ := hend
  rw [strip_eq_self_iff] at ha hb ⊢
  refine ⟨?_, ?_⟩
  · cases hlist : a.toList with
    | nil => exact absurd (String.toList_eq_nil_iff.mp hlist) hne
    | cons c l =>
      have hc : ¬isSpace c = true := by
        have hhead := List.dropWhile_eq_self_iff.mp ha.1 (by simp [hlist])
        simpa [hlist] using hhead
      rw [← ht, hlist, List.cons_append, List.dropWhile_cons_of_neg hc]
  · have hlist : b.toList ≠ [] := fun heq => hne' (String.toList_eq_nil_iff.mp heq)
    rw [List.rdropWhile_eq_self_iff]
    intro hl
    have hlast := List.rdropWhile_eq_self_iff.mp hb.2 hlist
    rwa [List.getLast_congr _ _ ht'.symm, List.getLast_append_of_ne_nil _ hlist]
    simp [hlist]

/-! ### Case -/

theorem toNat_toLower (c : Char) : c.toLower.toNat =
    if 65 ≤ c.toNat ∧ c.toNat ≤ 90 then c.toNat + 32 else c.toNat := by
  unfold Char.toLower
  split
  next h =>
    have hlow : 65 ≤ c.val.toNat := h.1
    have hhigh : c.val.toNat ≤ 90 := h.2
    have hshift : ('a'.val - 'A'.val).toNat = 32 := by decide
    rw [if_pos ⟨hlow, hhigh⟩]
    change (c.val + ('a'.val - 'A'.val)).toNat = c.val.toNat + 32
    rw [UInt32.toNat_add, hshift]
    omega
  next h =>
    rw [if_neg]
    rintro ⟨hlow, hhigh⟩
    exact h ⟨hlow, hhigh⟩

/-- The characters that `isAlphanum` has are the ASCII letters and digits. -/
theorem toNat_of_isAlphanum {c : Char} (h : c.isAlphanum) :
    48 ≤ c.toNat ∧ c.toNat ≤ 57 ∨ 65 ≤ c.toNat ∧ c.toNat ≤ 90 ∨ 97 ≤ c.toNat ∧ c.toNat ≤ 122 := by
  have hrange (low high : UInt32) (h : (decide (c.val ≥ low) && decide (c.val ≤ high)) = true) :
      low.toNat ≤ c.toNat ∧ c.toNat ≤ high.toNat :=
    ⟨of_decide_eq_true (Bool.and_eq_true_iff.mp h).1,
      of_decide_eq_true (Bool.and_eq_true_iff.mp h).2⟩
  rcases Bool.or_eq_true_iff.mp h with halpha | hdigit
  · rcases Bool.or_eq_true_iff.mp halpha with hupper | hlower
    · have hupper : c.val ≥ 'A'.val ∧ c.val ≤ 'Z'.val := of_decide_eq_true hupper
      exact .inr (.inl hupper)
    · exact .inr (.inr (hrange 97 122 hlower))
  · exact .inl (hrange 48 57 hdigit)

theorem isAlphanum_of_isLower {c : Char} (h : c.isLower = true) : c.isAlphanum = true :=
  Bool.or_eq_true_iff.mpr (.inl (Bool.or_eq_true_iff.mpr (.inr h)))

theorem isSpace_of_isAlphanum {c : Char} (h : c.isAlphanum) : isSpace c = false := by
  have hrange := toNat_of_isAlphanum h
  simp only [isSpace, isWhitespace, Bool.or_eq_false_iff, Bool.and_eq_false_iff,
    decide_eq_false_iff_not, beq_eq_false_iff_ne]
  omega

theorem isDecimal_of_isSpace {c : Char} (h : isSpace c = true) : isDecimal c = false := by
  -- the white space characters, one by one
  obtain ⟨l, hmem, hall⟩ : ∃ l : List ℕ, c.toNat ∈ l ∧
      ∀ n ∈ l, (decimalZeros.find? fun z => z ≤ n && n < z + 10) = none := by
    refine ⟨[9, 10, 11, 12, 13, 28, 29, 30, 31, 0x20, 0x85, 0xA0, 0x1680, 0x2000, 0x2001, 0x2002,
      0x2003, 0x2004, 0x2005, 0x2006, 0x2007, 0x2008, 0x2009, 0x200A, 0x2028, 0x2029, 0x202F,
      0x205F, 0x3000], ?_, by decide +kernel⟩
    simp only [isSpace, isWhitespace, Bool.or_eq_true, Bool.and_eq_true, decide_eq_true_eq,
      beq_iff_eq] at h
    simp only [List.mem_cons, List.not_mem_nil, or_false]
    omega
  rw [isDecimal, decimalValue, hall c.toNat hmem]
  rfl

theorem decimalValue_digitChar (n : ℕ) : decimalValue (n % 10).digitChar = some (n % 10) := by
  have hall : ∀ k < 10, decimalValue k.digitChar = some k := by decide
  exact hall (n % 10) (Nat.mod_lt _ (by decide))

/-- Decimal digits are read as the number that was written. -/
theorem decimalInt_toDigits (n : ℕ) : decimalInt (Nat.toDigits 10 n) = n := by
  induction n using Nat.strongRecOn with
  | ind n ih =>
    rw [Nat.toDigits_eq_if (by decide)]
    split_ifs with hn
    · have hmod : n % 10 = n := Nat.mod_eq_of_lt hn
      have hvalue := decimalValue_digitChar n
      rw [hmod] at hvalue
      simp [decimalInt, hvalue]
    · have hdiv := ih (n / 10) (Nat.div_lt_self (by omega) (by decide))
      rw [decimalInt] at hdiv
      rw [decimalInt, List.foldl_append, hdiv, List.foldl_cons, List.foldl_nil,
        decimalValue_digitChar, Option.getD_some]
      omega

theorem isDecimal_of_isDigit {c : Char} (h : c.isDigit = true) : isDecimal c = true := by
  obtain ⟨hlow, hhigh⟩ := Char.isDigit_iff_toNat.mp h
  have hlow : 48 ≤ c.toNat := hlow
  have hhigh : c.toNat ≤ 57 := hhigh
  have hall : ∀ k < 10, (decimalZeros.find? fun z => z ≤ k + 48 && k + 48 < z + 10).isSome = true := by
    decide
  have hfind := hall (c.toNat - 48) (by omega)
  rw [Nat.sub_add_cancel hlow] at hfind
  rw [isDecimal, decimalValue, Option.isSome_map, hfind]

theorem toLower_toLower (c : Char) : c.toLower.toLower = c.toLower := by
  apply Char.toNat_inj.mp
  rw [toNat_toLower, toNat_toLower]
  split_ifs <;> omega

theorem isSpace_toLower (c : Char) : isSpace c.toLower = isSpace c := by
  unfold isSpace isWhitespace
  simp only [toNat_toLower]
  split_ifs with h
  · grind
  · rfl

@[simp]
theorem asciiLower_asciiLower (s : String) : asciiLower (asciiLower s) = asciiLower s := by
  simp only [asciiLower, String.toList_ofList, List.map_map]
  exact congrArg String.ofList (List.map_congr_left fun c _ => toLower_toLower c)

/-- Python's `str.lower`. On ASCII it maps the letters, and what it returns has no upper-case ASCII
letter. -/
structure Lower where
  lower : String → String
  lower_ascii : ∀ s, (∀ c ∈ s.toList, c.toNat < 128) → lower s = asciiLower s
  asciiLower_lower : ∀ s, asciiLower (lower s) = lower s

/-- Lower case that leaves all other letters. -/
def Lower.asciiOnly : Lower where
  lower := asciiLower
  lower_ascii _ _ := rfl
  asciiLower_lower := asciiLower_asciiLower

theorem Lower.lower_empty (py : Lower) : py.lower "" = "" := by
  rw [py.lower_ascii "" (by simp)]
  rfl

theorem asciiLower_eq_empty {s : String} : asciiLower s = "" ↔ s = "" := by
  rw [← String.toList_inj, asciiLower, String.toList_ofList, ← String.toList_inj]
  simp

/-- Lower case leaves the white space around a text. -/
theorem strip_asciiLower_iff {s : String} :
    strip (asciiLower s) = asciiLower s ↔ strip s = s := by
  rw [strip_eq_self_iff, strip_eq_self_iff, asciiLower, String.toList_ofList,
    List.dropWhile_eq_self_iff, List.dropWhile_eq_self_iff, List.rdropWhile_eq_self_iff,
    List.rdropWhile_eq_self_iff]
  simp [isSpace_toLower]

/-! ### Words -/

/-- `str.split()`: the runs of characters between white space. -/
def words (s : String) : List String :=
  ((s.toList.splitOnP isSpace).filter fun run => run ≠ []).map String.ofList

/-- `str.split(sep, maxsplit)`, of a list of characters. -/
def splitMax (sep : Char) : ℕ → List Char → List (List Char)
  | 0, s => [s]
  | n + 1, s =>
    match s.dropWhile (· ≠ sep) with
    | [] => [s]
    | _ :: rest => s.takeWhile (· ≠ sep) :: splitMax sep n rest

/-- `s.split(sep)`, for one character. -/
def split (sep : Char) (s : String) : List String := (s.toList.splitOn sep).map String.ofList

theorem split_ne_nil (sep : Char) (s : String) : split sep s ≠ [] := by
  simp [split, List.splitOn, List.splitOnP_ne_nil]

/-- No run has a separator in it. -/
theorem forall_of_mem_splitOnP {p : Char → Bool} {s run : List Char} (h : run ∈ s.splitOnP p) :
    ∀ c ∈ run, p c = false := by
  induction s generalizing run with
  | nil =>
    obtain rfl := List.mem_singleton.mp h
    simp
  | cons c s ih =>
    rw [List.splitOnP_cons_eq_if_modifyHead] at h
    split_ifs at h with hc
    · rcases List.mem_cons.mp h with rfl | h
      · simp
      · exact ih h
    · cases hruns : s.splitOnP p with
      | nil => exact absurd hruns (List.splitOnP_ne_nil p s)
      | cons first rest =>
        rw [hruns, List.modifyHead_cons] at h
        rcases List.mem_cons.mp h with rfl | h
        · have hfirst := ih (hruns ▸ List.mem_cons_self)
          exact List.forall_mem_cons.mpr ⟨by simpa using hc, hfirst⟩
        · exact ih (hruns ▸ List.mem_cons_of_mem first h)

/-- The runs have all characters but the separators. -/
theorem flatten_splitOnP (p : Char → Bool) (s : List Char) :
    (s.splitOnP p).flatten = s.filter fun c => !p c := by
  induction s with
  | nil => rfl
  | cons c s ih =>
    rw [List.splitOnP_cons_eq_if_modifyHead]
    split_ifs with hc
    · simp [hc, ih]
    · cases hruns : s.splitOnP p with
      | nil => exact absurd hruns (List.splitOnP_ne_nil p s)
      | cons first rest =>
        rw [hruns] at ih
        rw [List.modifyHead_cons, List.flatten_cons, List.cons_append, ← List.flatten_cons, ih,
          List.filter_cons_of_pos (by simp [hc])]

/-- The words have all characters but the white space. -/
theorem flatMap_words (s : String) :
    (words s).flatMap String.toList = s.toList.filter fun c => !isSpace c := by
  rw [← flatten_splitOnP, words, List.flatMap_map]
  induction s.toList.splitOnP isSpace with
  | nil => rfl
  | cons run runs ih =>
    by_cases hrun : run = []
    · simpa [hrun] using ih
    · simpa [hrun] using ih

end Nodeglow.Text
