import Nodeglow.Backend.Syslog.Message5424

/-!
# Reading a message of RFC 5424

The header is read field by field, and each field is what the sender put there. The structured data
is skipped up to the first `]`, if no line feed comes before it, with the white space after it; the
message text is what is left of the current line, without the white space around it. The nil value
of the structured data is not skipped.

So the priority, the host and the application of every message come back. The text comes back from a
message of one line whose structured data is one element with no `]` in its values. From other
messages a part of the structured data stays in the text, or the lines after the first are lost.

## Main results

* `parseSyslog_text` — the result, for what is left after the structured data.
* `parseSyslog_sent` — what comes back from messages of one line.

Source: `backend/services/syslog.py`, lines 108–162 and 184–208.
-/

namespace Nodeglow.Syslog

variable {rs : List Regex} {m : List (List Char) × List Char} {rest : List Char}

/-! ### The header -/

/-- The space after a field. -/
theorem firstMatch_space (min : ℕ) (hrs : rs ≠ []) (hmin : min ≤ 1)
    (hrest : ∀ c ∈ rest.head?, Text.isSpace c = false)
    (h : (Regex.concat rs).firstMatch rest = some m) :
    (Regex.concat (spaces min :: rs)).firstMatch (' ' :: rest) = some m :=
  Regex.firstMatch_concat_cons hrs
    (Regex.firstMatch_chars (a := [' ']) (by simp; rfl) hmin nofun (.inr hrest)) h

/-- **A field of the header** is captured whole. -/
theorem firstMatch_field (min : ℕ) (field : Option Token) (hrs : rs ≠ []) (hmin : min ≤ 1)
    (hrest : ∀ c ∈ rest.head?, Text.isSpace c = false)
    (h : (Regex.concat rs).firstMatch rest = some m) :
    (Regex.concat (.group (nonSpaces true) :: spaces min :: rs)).firstMatch
      (fieldText field ++ ' ' :: rest) = some (fieldText field :: m.1, m.2) := by
  refine Regex.firstMatch_concat_group (List.cons_ne_nil _ _) ?_
    (firstMatch_space min hrs hmin hrest h)
  refine Regex.firstMatch_chars (fun c hc => ?_) ?_ nofun (.cons rfl)
  · simp [isSpace_of_mem_fieldText hc]
  · exact List.length_pos_iff.mpr (fieldText_ne_nil field)

theorem head?_fieldText_append (field : Option Token) (s : List Char) :
    ∀ c ∈ (fieldText field ++ s).head?, Text.isSpace c = false := by
  intro c hc
  cases hfield : fieldText field with
  | nil => exact absurd hfield (fieldText_ne_nil field)
  | cons d t =>
    rw [hfield] at hc
    obtain rfl : d = c := Option.some.inj hc
    exact isSpace_of_mem_fieldText (hfield ▸ List.mem_cons_self)

/-- The digits of a priority. -/
theorem decimals_pri : ∀ n ≤ 191, (Nat.toDigits 10 n).all Text.isDecimal = true ∧
    1 ≤ (Nat.toDigits 10 n).length ∧ (Nat.toDigits 10 n).length ≤ 3 ∧
    Text.decimalInt (Nat.toDigits 10 n) = n := by
  decide +kernel

/-- **The groups of a message**: the fields of its header, and the line that is left after the
structured data. -/
theorem firstMatch_header (m : Message5424) {s rest : List Char}
    (hs : ∀ c ∈ s.head?, Text.isSpace c = false)
    (h : structuredDataRe.firstMatch s = some ([], rest)) :
    rfc5424Re.firstMatch (m.header s) = some ([Nat.toDigits 10 m.pri, ['1'],
      fieldText m.timestamp, fieldText m.hostname, fieldText m.appName, fieldText m.procId,
      fieldText m.msgId, rest.takeWhile (· ≠ '\n')], rest.dropWhile (· ≠ '\n')) := by
  obtain ⟨hdigits, hmin, hmax, -⟩ := decimals_pri m.pri m.pri_le
  have hline : (Regex.concat [.group (line 0 true)]).firstMatch rest =
      some ([rest.takeWhile (· ≠ '\n')], rest.dropWhile (· ≠ '\n')) := by
    have hgroup := Regex.firstMatch_group (r := line 0 true) (a := rest.takeWhile (· ≠ '\n'))
      (b := rest.dropWhile (· ≠ '\n')) (m := ([], rest.dropWhile (· ≠ '\n')))
    rw [List.takeWhile_append_dropWhile] at hgroup
    exact hgroup (Regex.firstMatch_run _ rest)
  have hdata := Regex.firstMatch_concat_cons (List.cons_ne_nil _ _) h hline
  have hmsgId := firstMatch_field 0 m.msgId (List.cons_ne_nil _ _) (by simp) hs hdata
  have hprocId := firstMatch_field 1 m.procId (List.cons_ne_nil _ _) le_rfl
    (head?_fieldText_append _ _) hmsgId
  have happName := firstMatch_field 1 m.appName (List.cons_ne_nil _ _) le_rfl
    (head?_fieldText_append _ _) hprocId
  have hhostname := firstMatch_field 1 m.hostname (List.cons_ne_nil _ _) le_rfl
    (head?_fieldText_append _ _) happName
  have htimestamp := firstMatch_field 1 m.timestamp (List.cons_ne_nil _ _) le_rfl
    (head?_fieldText_append _ _) hhostname
  have hspace := firstMatch_space 1 (List.cons_ne_nil _ _) le_rfl (head?_fieldText_append _ _)
    htimestamp
  have hversion := Regex.firstMatch_concat_group (r := decimals 1 none) (a := ['1'])
    (List.cons_ne_nil _ _)
    (Regex.firstMatch_chars (by simp; rfl) le_rfl nofun (.cons rfl)) hspace
  have hclose := Regex.firstMatch_concat_cons (List.cons_ne_nil _ _) (Regex.firstMatch_lit '>' _)
    hversion
  have hpri := Regex.firstMatch_concat_group (r := decimals 1 (some 3)) (List.cons_ne_nil _ _)
    (Regex.firstMatch_chars (List.all_eq_true.mp hdigits) hmin (by simpa using hmax) (.cons rfl))
    hclose
  exact Regex.firstMatch_concat_cons (List.cons_ne_nil _ _) (Regex.firstMatch_lit '<' _) hpri

/-- The header of a message, with a message text. -/
def Message5424.parsed {τ : Type} (env : ParserEnv τ) (m : Message5424) (sourceIp : String)
    (line : List Char) : Parsed τ where
  timestamp := env.parse5424Ts (String.ofList (fieldText m.timestamp))
  sourceIp := sourceIp
  hostname := m.hostname.map Token.text
  facility := some (m.pri / 8)
  severity := m.pri % 8
  appName := m.appName.map Token.text
  message := stripped line

/-- **The header of a message** comes back; the message text is the line that is left after the
structured data. -/
theorem parseSyslog_text {τ : Type} (env : ParserEnv τ) (m : Message5424) (sourceIp : String)
    (h : structuredDataRe.firstMatch (m.sdText ++ m.tail) = some ([], rest)) :
    parseSyslog env m.text sourceIp =
      some (m.parsed env sourceIp (rest.takeWhile (· ≠ '\n'))) := by
  obtain ⟨-, -, -, hvalue⟩ := decimals_pri m.pri m.pri_le
  have hparse : parse5424 env (m.header (m.sdText ++ m.tail)) sourceIp =
      some (m.parsed env sourceIp (rest.takeWhile (· ≠ '\n'))) := by
    rw [parse5424, firstMatch_header m (m.head?_sdText_append m.tail) h]
    simp only [hvalue, Nat.min_eq_left m.pri_le, headerField_fieldText]
    rfl
  rw [parseSyslog, m.toList_strip_text]
  simp only [hparse]
  rfl

/-! ### The structured data -/

/-- Neither `]` nor a line feed. -/
def isPlain (c : Char) : Bool := c ≠ ']' && c ≠ '\n'

variable {c : Char} {a b : List Char}

theorem isPlain_eq_false : isPlain c = false ↔ c = ']' ∨ c = '\n' := by
  simp [isPlain, or_iff_not_imp_left]

theorem isPlain_eq_true : isPlain c = true ↔ c ≠ ']' ∧ c ≠ '\n' := by
  simp [isPlain]

theorem structuredDataRe_ne (hc : c ≠ '[') (s : List Char) :
    structuredDataRe.firstMatch (c :: s) = some ([], c :: s) := by
  have hlit : (Regex.lit '[').allMatches (c :: s) = [] :=
    Regex.allMatches_lit_eq_nil (by simpa using hc)
  exact Regex.firstMatch_opt_none (Regex.allMatches_seq_eq_nil hlit _)

/-- **Structured data is skipped** up to the first `]`. -/
theorem structuredDataRe_bracket (ha : ∀ c ∈ a, isPlain c = true) (b : List Char) :
    structuredDataRe.firstMatch ('[' :: (a ++ ']' :: b)) =
      some ([], b.dropWhile Text.isSpace) := by
  have hline : ∀ c ∈ a, decide (c ≠ '\n') = true := fun c hc =>
    decide_eq_true (isPlain_eq_true.mp (ha c hc)).2
  have hmem : ']' ∉ a := fun hmem => (isPlain_eq_true.mp (ha _ hmem)).1 rfl
  have huntil := Regex.firstMatch_until (r := spaces 0) hline hmem
    (Regex.firstMatch_run Text.isSpace b)
  exact Regex.firstMatch_opt (Regex.firstMatch_seq (Regex.firstMatch_lit '[' _) huntil)

/-- Structured data with a line feed before the first `]` is not skipped. -/
theorem structuredDataRe_lineFeed (ha : ∀ c ∈ a, isPlain c = true) (b : List Char) :
    structuredDataRe.firstMatch ('[' :: (a ++ '\n' :: b)) = some ([], '[' :: (a ++ '\n' :: b)) := by
  refine Regex.firstMatch_opt_none ((Regex.allMatches_lit_seq '[' _ _).trans ?_)
  refine Regex.allMatches_until_eq_nil fun x t hx hmem => ⟨'\n', ?_, rfl⟩
  by_contra hline
  have hplain : ∀ c ∈ x, isPlain c = true := fun c hc =>
    isPlain_eq_true.mpr ⟨fun heq => hmem (heq ▸ hc), fun heq => hline (heq ▸ hc)⟩
  have heq := (Text.append_cons_unique ha rfl hplain rfl hx).2.1
  exact absurd heq (by decide)

/-! ### The message text -/

/-- What is left of structured data that has a line feed: all of it, where no `]` comes before the
line feed; else what follows the first `]` and the white space after it. -/
inductive LeftOver (sd : List Char) : List Char → Prop
  | unclosed {x z : List Char} (hsd : sd = '[' :: (x ++ '\n' :: z))
      (hx : ∀ c ∈ x, isPlain c = true) : LeftOver sd ('[' :: x)
  | closed {x w y z : List Char} {c : Char}
      (hsd : sd = '[' :: (x ++ ']' :: (w ++ c :: (y ++ '\n' :: z))))
      (hx : ∀ c ∈ x, isPlain c = true) (hw : ∀ c ∈ w, Text.isSpace c = true)
      (hc : Text.isSpace c = false) (hy : '\n' ∉ y) : LeftOver sd (c :: y)

/-- One element, whose values contain neither `]` nor a line feed. -/
def Message5424.Simple (m : Message5424) : Prop :=
  ∃ e, m.structuredData = [e] ∧ ∀ p ∈ e.params, ∀ c ∈ p.value.toList, isPlain c = true

/-- The text of a message is what happens to be left of its structured data before a line feed. -/
def Message5424.Coincides (m : Message5424) : Prop :=
  ∃ s, LeftOver m.sdText s ∧ m.msg = stripped s

/-- The priority, the host and the application of a message. -/
structure Message5424.IsHeaderOf {τ : Type} (m : Message5424) (result : Parsed τ) : Prop where
  facility : result.facility = some (m.pri / 8)
  severity : result.severity = m.pri % 8
  hostname : result.hostname = m.hostname.map Token.text
  appName : result.appName = m.appName.map Token.text

/-- Parsing the text of a message gives its priority, its host, its application and its text. -/
def Undone {τ : Type} (env : ParserEnv τ) (sourceIp : String) (m : Message5424) : Prop :=
  ∃ result, parseSyslog env m.text sourceIp = some result ∧ m.IsHeaderOf result ∧
    result.message = m.msg

variable {τ : Type} {env : ParserEnv τ} {sourceIp : String} {m : Message5424}

theorem Message5424.isHeaderOf_parsed (m : Message5424) (env : ParserEnv τ) (sourceIp : String)
    (line : List Char) : m.IsHeaderOf (m.parsed env sourceIp line) :=
  ⟨rfl, rfl, rfl, rfl⟩

/-- The shape of structured data: the nil value, or a bracket and a first break. -/
theorem sdText_cases (m : Message5424) : m.structuredData = [] ∨
    ∃ a c b, m.sdText = '[' :: (a ++ c :: b) ∧ (∀ d ∈ a, isPlain d = true) ∧ isPlain c = false := by
  cases h : m.structuredData with
  | nil => exact .inl rfl
  | cons e es =>
    obtain ⟨a, c, b, heq, ha, hc⟩ := Text.exists_eq_append_cons (p := isPlain) (d := ']')
      (s := e.inner ++ ']' :: es.flatMap SdElement.format) (by simp) rfl
    exact .inr ⟨a, c, b, by rw [Message5424.sdText_cons h, heq], ha, hc⟩

theorem firstMatch_of_nil (h : m.structuredData = []) :
    structuredDataRe.firstMatch (m.sdText ++ m.tail) = some ([], '-' :: m.tail) := by
  have hsd : m.sdText = ['-'] := by simp [Message5424.sdText, h]
  rw [hsd]
  exact structuredDataRe_ne (by decide) m.tail

theorem isPlain_inner_iff (e : SdElement) : (∀ d ∈ e.inner, isPlain d = true) ↔
    ∀ p ∈ e.params, ∀ d ∈ p.value.toList, isPlain d = true := by
  constructor
  · intro hinner p hp d hd
    by_contra hnot
    have hbreak := isPlain_eq_false.mp (eq_false_of_ne_true hnot)
    exact hnot (hinner d ((e.mem_inner hbreak).mpr ⟨p, hp, hd⟩))
  · intro hvalues d hd
    by_contra hnot
    have hbreak := isPlain_eq_false.mp (eq_false_of_ne_true hnot)
    obtain ⟨p, hp, hmem⟩ := (e.mem_inner hbreak).mp hd
    exact hnot (hvalues p hp d hmem)

/-- Whether there is one plain element shows at the first break. -/
theorem simple_iff (hsd : m.sdText = '[' :: (a ++ c :: b)) (ha : ∀ d ∈ a, isPlain d = true)
    (hc : isPlain c = false) : m.Simple ↔ c = ']' ∧ b = [] := by
  constructor
  · rintro ⟨e, he, hvalues⟩
    have heq := List.cons.inj (hsd.symm.trans (Message5424.sdText_cons he))
    obtain ⟨-, hc', hb⟩ :=
      Text.append_cons_unique ha hc ((isPlain_inner_iff e).mpr hvalues) rfl heq.2
    exact ⟨hc', hb⟩
  · rintro ⟨rfl, rfl⟩
    cases h : m.structuredData with
    | nil => simp [Message5424.sdText, h] at hsd
    | cons e es =>
      have heq : e.inner ++ ']' :: es.flatMap SdElement.format = a ++ [']'] :=
        (List.cons.inj ((Message5424.sdText_cons h).symm.trans hsd)).2
      -- The only `]` is the one that closes the element.
      have hcount := congrArg (List.count ']') heq
      have hmem : ']' ∉ a := fun hmem => (isPlain_eq_true.mp (ha _ hmem)).1 rfl
      simp only [List.count_append, List.count_cons_self, List.count_eq_zero_of_not_mem hmem,
        List.count_nil] at hcount
      obtain rfl : es = [] := flatMap_format_eq_nil (List.count_eq_zero.mp (by omega))
      obtain rfl : e.inner = a := List.append_cancel_right heq
      exact ⟨e, h, (isPlain_inner_iff e).mp ha⟩

theorem coincides_unclosed (hsd : m.sdText = '[' :: (a ++ '\n' :: b))
    (ha : ∀ d ∈ a, isPlain d = true) : m.Coincides ↔ m.msg = stripped ('[' :: a) := by
  constructor
  · rintro ⟨s, hleft, hmsg⟩
    cases hleft with
    | unclosed hsd' hx =>
      obtain ⟨rfl, -⟩ :=
        Text.append_cons_unique ha rfl hx rfl (List.cons.inj (hsd.symm.trans hsd')).2
      exact hmsg
    | closed hsd' hx =>
      obtain ⟨-, heq, -⟩ :=
        Text.append_cons_unique ha rfl hx rfl (List.cons.inj (hsd.symm.trans hsd')).2
      exact absurd heq (by decide)
  · exact fun hmsg => ⟨_, .unclosed hsd ha, hmsg⟩

/-- After a first `]`, only the line that starts with the next character can be the text. -/
theorem coincides_closed (hsd : m.sdText = '[' :: (a ++ ']' :: b))
    (ha : ∀ d ∈ a, isPlain d = true) : m.Coincides ↔
      ∃ w d y z, b = w ++ d :: (y ++ '\n' :: z) ∧ (∀ c ∈ w, Text.isSpace c = true) ∧
        Text.isSpace d = false ∧ '\n' ∉ y ∧ m.msg = stripped (d :: y) := by
  constructor
  · rintro ⟨s, hleft, hmsg⟩
    cases hleft with
    | unclosed hsd' hx =>
      obtain ⟨-, heq, -⟩ :=
        Text.append_cons_unique ha rfl hx rfl (List.cons.inj (hsd.symm.trans hsd')).2
      exact absurd heq (by decide)
    | closed hsd' hx hw hc hy =>
      obtain ⟨-, -, rfl⟩ :=
        Text.append_cons_unique ha rfl hx rfl (List.cons.inj (hsd.symm.trans hsd')).2
      exact ⟨_, _, _, _, rfl, hw, hc, hy, hmsg⟩
  · rintro ⟨w, d, y, z, rfl, hw, hd, hy, hmsg⟩
    exact ⟨_, .closed hsd ha hw hd hy, hmsg⟩

/-! ### The text of a message -/

theorem takeWhile_line {s : List Char} (h : '\n' ∉ s) : s.takeWhile (· ≠ '\n') = s :=
  List.takeWhile_eq_self_iff.mpr fun _ hc => decide_eq_true fun heq => h (heq ▸ hc)

/-- A text of one line comes back from what follows the structured data. -/
theorem stripped_tail (hline : '\n' ∉ (Text.strip m.msg).toList) :
    stripped ((m.tail.dropWhile Text.isSpace).takeWhile (· ≠ '\n')) = Text.strip m.msg := by
  have hdrop : m.tail.dropWhile Text.isSpace = (Text.strip m.msg).toList := by
    rw [Message5424.tail, Text.dropWhile_rdropWhile, Text.strip, Text.trimMatches,
      String.toList_ofList]
    rfl
  rw [hdrop, takeWhile_line hline, stripped, String.ofList_toList, Text.strip_strip]

/-- Structured data that is left before the end of the text makes it longer. -/
theorem stripped_append_tail_ne (hline : '\n' ∉ m.msg.toList) (hstrip : Text.strip m.msg = m.msg)
    {s : List Char} {d e : Char} (hstart : s = d :: a) (hd : Text.isSpace d = false)
    (hend : s = b ++ [e]) (he : Text.isSpace e = false) (hs : '\n' ∉ s) :
    stripped ((s ++ m.tail).takeWhile (· ≠ '\n')) ≠ m.msg := by
  have hwhole : (s ++ m.tail).takeWhile (· ≠ '\n') = s ++ m.tail := by
    have htail : '\n' ∉ m.tail := fun hmem =>
      hline (by simpa using (List.rdropWhile_prefix _ _).subset hmem)
    exact takeWhile_line fun hmem => (List.mem_append.mp hmem).elim hs htail
  have hfront : (s ++ m.tail).dropWhile Text.isSpace = s ++ m.tail := by
    rw [hstart, List.cons_append, List.dropWhile_cons_of_neg (by simp [hd])]
  have hback : (s ++ m.tail).rdropWhile Text.isSpace = s ++ m.tail := by
    rw [hend, List.append_assoc, List.singleton_append, Text.rdropWhile_append_cons he,
      Message5424.tail, List.rdropWhile_idempotent]
  intro hmsg
  have hlist : s ++ m.tail = m.msg.toList := by
    rw [← hmsg, hwhole, stripped, Text.strip, Text.trimMatches, String.toList_ofList,
      String.toList_ofList, hfront, hback]
  have hlength := congrArg List.length hlist
  rw [m.tail_eq hstrip, hstart] at hlength
  split_ifs at hlength with h
  · rw [h] at hlength
    simp at hlength
  · simp only [List.length_append, List.length_cons] at hlength
    omega

theorem stripped_iff_nil (hline : '\n' ∉ m.msg.toList) (hstrip : Text.strip m.msg = m.msg)
    (hnil : m.structuredData = []) :
    stripped (('-' :: m.tail).takeWhile (· ≠ '\n')) = m.msg ↔ m.Simple ∨ m.Coincides := by
  have hsd : m.sdText = ['-'] := by simp [Message5424.sdText, hnil]
  refine iff_of_false ?_ ?_
  · exact stripped_append_tail_ne (s := ['-']) (a := []) (b := []) hline hstrip rfl rfl rfl rfl
      (by decide)
  · rintro (⟨e, he, -⟩ | ⟨s, hleft, -⟩)
    · exact absurd (hnil.symm.trans he) (List.cons_ne_nil _ _).symm
    · cases hleft with
      | unclosed hsd' => simp [hsd] at hsd'
      | closed hsd' => simp [hsd] at hsd'

theorem stripped_iff_unclosed (hsd : m.sdText = '[' :: (a ++ '\n' :: b))
    (ha : ∀ d ∈ a, isPlain d = true) :
    stripped ((m.sdText ++ m.tail).takeWhile (· ≠ '\n')) = m.msg ↔ m.Simple ∨ m.Coincides := by
  have hmem : '\n' ∉ '[' :: a := by
    simpa using fun hmem => (isPlain_eq_true.mp (ha _ hmem)).2 rfl
  have htake : (m.sdText ++ m.tail).takeWhile (· ≠ '\n') = '[' :: a := by
    have hfirst := Text.takeWhile_append_cons hmem (b ++ m.tail)
    rw [hsd]
    simpa using hfirst
  have hsimple : ¬m.Simple := fun h =>
    absurd ((simple_iff hsd ha rfl).mp h).1 (by decide)
  rw [htake, coincides_unclosed hsd ha, or_iff_right hsimple, eq_comm]

theorem stripped_iff_closed (hline : '\n' ∉ m.msg.toList) (hstrip : Text.strip m.msg = m.msg)
    (hsd : m.sdText = '[' :: (a ++ ']' :: b)) (ha : ∀ d ∈ a, isPlain d = true) :
    stripped (((b ++ m.tail).dropWhile Text.isSpace).takeWhile (· ≠ '\n')) = m.msg ↔
      m.Simple ∨ m.Coincides := by
  rcases List.eq_nil_or_concat' b with rfl | ⟨b, e, rfl⟩
  · have htail := stripped_tail (m := m) (hstrip.symm ▸ hline)
    rw [hstrip] at htail
    exact iff_of_true htail (.inl ((simple_iff hsd ha rfl).mpr ⟨rfl, rfl⟩))
  have hsimple : ¬m.Simple := fun h =>
    absurd ((simple_iff hsd ha rfl).mp h).2 (List.concat_ne_nil e b)
  have he : Text.isSpace e = false := by
    obtain ⟨s, e', hs, he'⟩ := m.exists_sdText_eq_concat
    have hlast : ('[' :: (a ++ ']' :: b)) ++ [e] = s ++ [e'] := by
      rw [← hs, hsd]
      simp
    obtain rfl : e = e' := by simpa using (List.append_inj' hlast rfl).2
    exact he'
  -- What stands after the first `]` and the white space after it.
  obtain ⟨w, d, t, hwdt, hw, hd⟩ := Text.exists_eq_append_cons (s := b ++ [e]) (d := e) (by simp) he
  have hdrop : ((b ++ [e]) ++ m.tail).dropWhile Text.isSpace = (d :: t) ++ m.tail := by
    rw [hwdt, List.append_assoc, List.dropWhile_append_of_pos hw, List.cons_append,
      List.dropWhile_cons_of_neg (by simp [hd])]
  have hdne : d ≠ '\n' := by
    rintro rfl
    exact absurd hd (by decide)
  rw [hdrop, or_iff_right hsimple, coincides_closed hsd ha]
  by_cases hmem : '\n' ∈ t
  · obtain ⟨y, z, rfl, hy⟩ := List.eq_append_cons_of_mem hmem
    have hdy : '\n' ∉ d :: y := by simp [hdne.symm, hy]
    have htake : (d :: (y ++ '\n' :: z) ++ m.tail).takeWhile (· ≠ '\n') = d :: y := by
      have hfirst := Text.takeWhile_append_cons hdy (z ++ m.tail)
      simpa using hfirst
    rw [htake]
    constructor
    · exact fun hmsg => ⟨w, d, y, z, hwdt, hw, hd, hy, hmsg.symm⟩
    · rintro ⟨w', d', y', z', hwdt', hw', hd', hy', hmsg⟩
      obtain ⟨-, rfl, ht⟩ := Text.append_cons_unique hw hd hw' hd' (hwdt.symm.trans hwdt')
      obtain ⟨rfl, -⟩ := (Text.append_cons_inj hy hy').mp ht
      exact hmsg.symm
  · refine iff_of_false ?_ ?_
    · obtain ⟨t', f, ht'⟩ : ∃ t' f, d :: t = t' ++ [f] :=
        ⟨_, _, (List.dropLast_append_getLast (List.cons_ne_nil d t)).symm⟩
      have hlast : b ++ [e] = (w ++ t') ++ [f] := by rw [hwdt, ht', List.append_assoc]
      obtain rfl : e = f := by simpa using (List.append_inj' hlast rfl).2
      exact stripped_append_tail_ne hline hstrip rfl hd ht' he (by simp [hdne.symm, hmem])
    · rintro ⟨w', d', y', z', hwdt', hw', hd', -, -⟩
      obtain ⟨-, -, rfl⟩ := Text.append_cons_unique hw hd hw' hd' (hwdt.symm.trans hwdt')
      exact hmem (by simp)

/-- **What is left after the structured data**, of any message, and when its first line is the text
of a message that is itself one line. -/
theorem exists_rest (m : Message5424) :
    ∃ rest, structuredDataRe.firstMatch (m.sdText ++ m.tail) = some ([], rest) ∧
      ('\n' ∉ m.msg.toList → Text.strip m.msg = m.msg →
        (stripped (rest.takeWhile (· ≠ '\n')) = m.msg ↔ m.Simple ∨ m.Coincides)) := by
  rcases sdText_cases m with hnil | ⟨a, c, b, hsd, ha, hc⟩
  · exact ⟨'-' :: m.tail, firstMatch_of_nil hnil,
      fun hline hstrip => stripped_iff_nil hline hstrip hnil⟩
  have htext : m.sdText ++ m.tail = '[' :: (a ++ c :: (b ++ m.tail)) := by
    rw [hsd]
    simp
  rcases isPlain_eq_false.mp hc with rfl | rfl
  · refine ⟨(b ++ m.tail).dropWhile Text.isSpace, ?_,
      fun hline hstrip => stripped_iff_closed hline hstrip hsd ha⟩
    rw [htext]
    exact structuredDataRe_bracket ha _
  · refine ⟨m.sdText ++ m.tail, ?_, fun _ _ => stripped_iff_unclosed hsd ha⟩
    rw [htext]
    exact structuredDataRe_lineFeed ha _

/-! ### What comes back from every message -/

theorem firstMatch_of_simple (h : m.Simple) :
    structuredDataRe.firstMatch (m.sdText ++ m.tail) =
      some ([], m.tail.dropWhile Text.isSpace) := by
  obtain ⟨e, he, hvalues⟩ := h
  have htext : m.sdText ++ m.tail = '[' :: (e.inner ++ ']' :: m.tail) := by
    rw [Message5424.sdText_cons he]
    simp
  rw [htext]
  exact structuredDataRe_bracket ((isPlain_inner_iff e).mpr hvalues) m.tail

/-- **A message of RFC 5424** comes back with its priority, its host and its application. Its text
comes back without the white space around it, where it is one line: alone, if the structured data is
one element without `]` and line feeds in its values; after the nil value of the structured data, if
there is none. -/
theorem parseSyslog_sent {τ : Type} (env : ParserEnv τ) (sourceIp : String) (m : Message5424) :
    ∃ result, parseSyslog env m.text sourceIp = some result ∧ m.IsHeaderOf result ∧
      (m.Simple → '\n' ∉ (Text.strip m.msg).toList → result.message = Text.strip m.msg) ∧
      (m.structuredData = [] → '\n' ∉ (Text.strip ("- " ++ m.msg)).toList →
        result.message = Text.strip ("- " ++ m.msg)) := by
  obtain ⟨rest, hrest, -⟩ := exists_rest m
  refine ⟨_, parseSyslog_text env m sourceIp hrest, m.isHeaderOf_parsed env sourceIp _, ?_, ?_⟩
  · intro hsimple hline
    obtain rfl : rest = m.tail.dropWhile Text.isSpace :=
      (Prod.mk.inj (Option.some.inj (hrest.symm.trans (firstMatch_of_simple hsimple)))).2
    exact stripped_tail hline
  · intro hnil hline
    obtain rfl : rest = '-' :: m.tail :=
      (Prod.mk.inj (Option.some.inj (hrest.symm.trans (firstMatch_of_nil hnil)))).2
    have hstrip : Text.strip ("- " ++ m.msg) = String.ofList ('-' :: m.tail) := by
      have hback : ('-' :: ' ' :: m.msg.toList).rdropWhile Text.isSpace = '-' :: m.tail :=
        Text.rdropWhile_append_cons (s := []) rfl
      rw [Text.strip, Text.trimMatches, String.toList_append, ← hback]
      rfl
    rw [hstrip, String.toList_ofList] at hline
    change stripped (('-' :: m.tail).takeWhile (· ≠ '\n')) = _
    rw [takeWhile_line hline, stripped, ← hstrip, Text.strip_strip]

/-- A parser to which all timestamps are the same. -/
def sampleEnv : ParserEnv Unit where
  utcnow := ()
  parse5424Ts _ := ()
  parse3164Ts _ := ()
  isAlnum := Char.isAlphanum

/-- A message without structured data. -/
def sampleNil : Message5424 where
  pri := 165
  pri_le := by decide
  timestamp := some ⟨"2026-03-07T10:30:15.123Z", by decide, by decide, by decide⟩
  hostname := some ⟨"myhost", by decide, by decide, by decide⟩
  appName := some ⟨"myapp", by decide, by decide, by decide⟩
  procId := some ⟨"1234", by decide, by decide, by decide⟩
  msgId := some ⟨"ID47", by decide, by decide, by decide⟩
  structuredData := []
  msg := "Hello world"

example : sampleNil.text =
    "<165>1 2026-03-07T10:30:15.123Z myhost myapp 1234 ID47 - Hello world" := by
  decide +kernel

/-- The nil value of the structured data stays in the message text. -/
theorem nil_value_stays : ¬∀ m : Message5424, Undone sampleEnv "10.0.0.1" m := by
  intro h
  obtain ⟨result, hresult, -, hmessage⟩ := h sampleNil
  have hparse : (parseSyslog sampleEnv sampleNil.text "10.0.0.1").map Parsed.message =
      some "- Hello world" := by decide +kernel
  rw [hresult, Option.map_some, hmessage] at hparse
  exact absurd hparse (by decide)

end Nodeglow.Syslog
