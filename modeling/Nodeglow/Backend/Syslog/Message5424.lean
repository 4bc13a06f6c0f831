import Nodeglow.Backend.Syslog.Parser

/-!
# Messages of RFC 5424

A message as a sender builds it: a priority, five fields that may each be without a value, the
structured data and any text. In the value of a parameter the characters `"`, `\` and `]` are
escaped; all others, line feeds among them, stand as they are.

## Main results

* `Message5424.toList_strip_text` — what the parser keeps of the text of a message.
* `SdElement.mem_inner` — where `]` and line feeds in an element come from.

Source: `backend/services/syslog.py`, lines 150–162.
-/

namespace Nodeglow.Syslog

/-- PRINTUSASCII. -/
def isPrintable (c : Char) : Bool := 33 ≤ c.toNat && c.toNat ≤ 126

/-- The value of a header field. -/
structure Token where
  text : String
  ne_empty : text ≠ ""
  ne_nil : text ≠ "-"
  printable : text.toList.all isPrintable = true

/-- The name of an element of the structured data, or of a parameter. -/
structure SdName where
  text : String
  ne_empty : text ≠ ""
  printable : text.toList.all isPrintable = true
  plain : '=' ∉ text.toList ∧ ']' ∉ text.toList ∧ '"' ∉ text.toList

/-- A parameter. -/
structure SdParam where
  name : SdName
  value : String

/-- An element of the structured data. -/
structure SdElement where
  id : SdName
  params : List SdParam

/-- A message. -/
structure Message5424 where
  pri : ℕ
  pri_le : pri ≤ 191
  timestamp : Option Token
  hostname : Option Token
  appName : Option Token
  procId : Option Token
  msgId : Option Token
  structuredData : List SdElement
  msg : String

/-- The text of a header field. -/
def fieldText : Option Token → List Char
  | none => ['-']
  | some token => token.text.toList

/-- The value of a parameter with its escapes. -/
def escape (value : List Char) : List Char :=
  value.flatMap fun c => if c ∈ ['"', '\\', ']'] then ['\\', c] else [c]

/-- The text of a parameter. -/
def SdParam.format (p : SdParam) : List Char :=
  p.name.text.toList ++ '=' :: '"' :: (escape p.value.toList ++ ['"'])

/-- The text of an element between its brackets. -/
def SdElement.inner (e : SdElement) : List Char :=
  e.id.text.toList ++ e.params.flatMap fun p => ' ' :: p.format

/-- The text of an element. -/
def SdElement.format (e : SdElement) : List Char := '[' :: (e.inner ++ [']'])

namespace Message5424

variable (m : Message5424)

/-- The text of the structured data. -/
def sdText : List Char :=
  match m.structuredData with
  | [] => ['-']
  | es => es.flatMap SdElement.format

/-- The text up to the structured data, with `rest` after it. -/
def header (rest : List Char) : List Char :=
  '<' :: (Nat.toDigits 10 m.pri ++ '>' :: '1' :: ' ' ::
    (fieldText m.timestamp ++ ' ' :: (fieldText m.hostname ++ ' ' ::
      (fieldText m.appName ++ ' ' :: (fieldText m.procId ++ ' ' ::
        (fieldText m.msgId ++ ' ' :: rest))))))

/-- The text of a message. -/
def text : String := String.ofList (m.header (m.sdText ++ ' ' :: m.msg.toList))

/-- What follows the structured data, without the white space at the end. -/
def tail : List Char := (' ' :: m.msg.toList).rdropWhile Text.isSpace

end Message5424

variable {c : Char}

/-! ### Fields -/

theorem isSpace_of_isPrintable (h : isPrintable c = true) : Text.isSpace c = false := by
  simp only [isPrintable, Bool.and_eq_true, decide_eq_true_eq] at h
  simp only [Text.isSpace, Text.isWhitespace, Bool.or_eq_false_iff, Bool.and_eq_false_iff,
    decide_eq_false_iff_not, beq_eq_false_iff_ne]
  omega

theorem fieldText_ne_nil (field : Option Token) : fieldText field ≠ [] := by
  cases field with
  | none => exact List.cons_ne_nil _ _
  | some token => exact fun h => token.ne_empty (String.toList_eq_nil_iff.mp h)

theorem isSpace_of_mem_fieldText {field : Option Token} (h : c ∈ fieldText field) :
    Text.isSpace c = false := by
  cases field with
  | none => exact List.mem_singleton.mp h ▸ rfl
  | some token => exact isSpace_of_isPrintable (List.all_eq_true.mp token.printable c h)

theorem headerField_fieldText (field : Option Token) :
    headerField (fieldText field) = field.map Token.text := by
  cases field with
  | none => rfl
  | some token =>
    have hne : token.text.toList ≠ ['-'] := by
      intro h
      apply token.ne_nil
      rw [← String.ofList_toList (s := token.text), h]
    simp only [fieldText, headerField, if_neg hne, String.ofList_toList, Option.map_some]

/-! ### Structured data -/

theorem mem_escape {value : List Char} (hc : c ≠ '\\') : c ∈ escape value ↔ c ∈ value := by
  simp only [escape, List.mem_flatMap]
  constructor
  · rintro ⟨d, hd, hmem⟩
    split_ifs at hmem
    · have : c = d := by simpa [hc] using hmem
      exact this ▸ hd
    · exact List.mem_singleton.mp hmem ▸ hd
  · intro hmem
    refine ⟨c, hmem, ?_⟩
    split_ifs <;> simp

/-- **The breaks of an element**, its `]` and line feeds, are those of its values. -/
theorem SdElement.mem_inner (e : SdElement) (hc : c = ']' ∨ c = '\n') :
    c ∈ e.inner ↔ ∃ p ∈ e.params, c ∈ p.value.toList := by
  have hname (n : SdName) : c ∉ n.text.toList := by
    intro hmem
    rcases hc with rfl | rfl
    · exact n.plain.2.1 hmem
    · exact absurd (List.all_eq_true.mp n.printable _ hmem) (by decide)
  have hparam (p : SdParam) : c ∈ ' ' :: p.format ↔ c ∈ p.value.toList := by
    have hne : c ≠ ' ' ∧ c ≠ '=' ∧ c ≠ '"' ∧ c ≠ '\\' := by
      rcases hc with rfl | rfl <;> decide
    simp only [SdParam.format, List.mem_cons, List.mem_append, hname p.name, hne,
      mem_escape hne.2.2.2, List.not_mem_nil, false_or, or_false]
  simp only [SdElement.inner, List.mem_append, hname e.id, List.mem_flatMap, hparam, false_or]

theorem flatMap_format_eq_nil {es : List SdElement} (h : ']' ∉ es.flatMap SdElement.format) :
    es = [] := by
  cases es with
  | nil => rfl
  | cons e es => simp [SdElement.format] at h

namespace Message5424

variable {m : Message5424}

theorem sdText_cons {e : SdElement} {es : List SdElement} (h : m.structuredData = e :: es) :
    m.sdText = '[' :: (e.inner ++ ']' :: es.flatMap SdElement.format) := by
  simp [sdText, h, SdElement.format]

/-- The structured data starts with a character that is not white space. -/
theorem head?_sdText_append (m : Message5424) (s : List Char) :
    ∀ c ∈ (m.sdText ++ s).head?, Text.isSpace c = false := by
  intro c hc
  cases h : m.structuredData with
  | nil =>
    obtain rfl : '-' = c := by simpa [sdText, h] using hc
    rfl
  | cons e es =>
    obtain rfl : '[' = c := by simpa [sdText_cons h] using hc
    rfl

/-- The structured data ends in a character that is not white space. -/
theorem exists_sdText_eq_concat (m : Message5424) :
    ∃ s c, m.sdText = s ++ [c] ∧ Text.isSpace c = false := by
  cases h : m.structuredData with
  | nil => exact ⟨[], '-', by simp [sdText, h], rfl⟩
  | cons e es =>
    obtain ⟨es', e', hlast⟩ : ∃ es' e', e :: es = es' ++ [e'] :=
      ⟨_, _, (List.dropLast_append_getLast (List.cons_ne_nil e es)).symm⟩
    refine ⟨es'.flatMap SdElement.format ++ '[' :: e'.inner, ']', ?_, rfl⟩
    have hsd : m.sdText = (e :: es).flatMap SdElement.format := by simp [sdText, h]
    rw [hsd, hlast]
    simp [SdElement.format]

theorem header_append (m : Message5424) (s t : List Char) :
    m.header (s ++ t) = m.header s ++ t := by
  simp [header]

/-- **The text without the white space around it** has lost only the end of `MSG`. -/
theorem toList_strip_text (m : Message5424) :
    (Text.strip m.text).toList = m.header (m.sdText ++ m.tail) := by
  obtain ⟨s, c, hsd, hc⟩ := m.exists_sdText_eq_concat
  have htext : m.text.toList = m.header s ++ c :: ' ' :: m.msg.toList := by
    rw [text, hsd, List.append_assoc, header_append, String.toList_ofList]
    rfl
  have hstart : m.text.toList.dropWhile Text.isSpace = m.text.toList := by
    rw [htext]
    rfl
  rw [Text.strip, Text.trimMatches, String.toList_ofList, hstart, htext,
    Text.rdropWhile_append_cons hc, hsd, List.append_assoc, header_append]
  rfl

/-! ### The end of the text -/

/-- A text that has no white space around it keeps its end. -/
theorem tail_eq (h : Text.strip m.msg = m.msg) :
    m.tail = if m.msg = "" then [] else ' ' :: m.msg.toList := by
  have hend := (Text.strip_eq_self_iff.mp h).2
  rcases List.eq_nil_or_concat' m.msg.toList with hnil | ⟨s, c, hs⟩
  · rw [tail, hnil, if_pos (String.toList_eq_nil_iff.mp hnil)]
    rfl
  · have hne : m.msg ≠ "" := by
      intro heq
      rw [heq] at hs
      simp at hs
    have hc : Text.isSpace c = false := by
      have hlast := List.rdropWhile_eq_self_iff.mp hend (by rw [hs]; simp)
      simpa [hs] using hlast
    have hdrop := Text.rdropWhile_append_cons (s := ' ' :: s) (t := []) hc
    rw [tail, if_neg hne, hs]
    simpa using hdrop

end Message5424

end Nodeglow.Syslog
