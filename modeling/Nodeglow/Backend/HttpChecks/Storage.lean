import Nodeglow.Backend.HttpChecks.Options

/-!
# Stored options of an HTTP check

The options that are kept are stored as JSON text. When they are read, they are validated again, and
what cannot be read is taken as the defaults.

## Main results

* `normalize_loads_dump` — what was stored is accepted again.
* `load_dump` — it has the values that the input asked for.

Source: `backend/utils/http_options.py`, lines 182–199.
-/

namespace Nodeglow.HttpChecks

variable {F : Type} (py : Python F)

/-- `DEFAULTS`. -/
def defaults : HttpOptions F where
  method := "GET"
  url := none
  expectedStatus := none
  keyword := none
  keywordAbsent := none
  timeout := defaultTimeout py
  followRedirects := true
  verifyTls := false

/-- `HttpOptions(**clean)`. -/
def ofClean (c : Clean F) : HttpOptions F where
  method := c.method.getD (defaults py).method
  url := c.url
  expectedStatus := c.expectedStatus
  keyword := c.keyword
  keywordAbsent := c.keywordAbsent
  timeout := c.timeout.getD (defaults py).timeout
  followRedirects := c.followRedirects.getD (defaults py).followRedirects
  verifyTls := c.verifyTls.getD (defaults py).verifyTls

/-- `dump`. -/
def dump (clean : Option (Clean F)) : Option String :=
  clean.map fun c => JsonText.dumps py.floats .spaced (.dict (JsonText.sortKeys c.fields))

/-- `load`. -/
def load [DecidableEq F] (stored : Option String) : Except Error (HttpOptions F) :=
  match stored.filter (· ≠ "") with
  | none => .ok (defaults py)
  | some text =>
    match JsonText.loads py.floats text with
    | none => .ok (defaults py)
    | some data =>
      match normalize py data with
      | .error (.value _) => .ok (defaults py)
      | .error .overflow => .error .overflow
      | .ok none => .ok (defaults py)
      | .ok (some clean) => .ok (ofClean py clean)

/-- `HttpOptions.status_ranges`. -/
def statusRanges (o : HttpOptions F) : Except String (Option (List (ℕ × ℕ))) :=
  match o.expectedStatus.filter (· ≠ "") with
  | none => .ok none
  | some spec => (parseStatusSpec spec).map some

/-! ### What an input asks for -/

/-- The trimmed text of a value, if it has one. -/
def trimmedText (v : JsonValue F) : Option String :=
  if v matches .null then none
  else (py.str v).toOption.map Text.strip |>.filter (· ≠ "")

/-- The text of a value, unless it is white space only. -/
def wholeText (v : JsonValue F) : Option String :=
  if v matches .null then none
  else (py.str v).toOption.filter (Text.strip · ≠ "")

/-- The truth value of a value. -/
def truth (v : JsonValue F) : Option Bool :=
  match v with
  | .bool b => some b
  | .int n => some (n ≠ 0)
  | .str s => some (py.toLower.lower s ∈ ["true", "1"])
  | _ => none

/-- **What an input asks for**: the values that are given, and else the defaults. -/
structure Asks (raw : JsonValue F) (o : HttpOptions F) : Prop where
  method : o.method = ((trimmedText py (raw.get "method")).map py.upper).getD "GET"
  url : o.url = trimmedText py (raw.get "url")
  status : ∃ ranges, statusRanges o = .ok ranges ∧ ∀ code, statusMatches code ranges = true ↔
    (trimmedText py (raw.get "expected_status")).elim (code < 500) fun spec => Names spec code
  keyword : o.keyword = wholeText py (raw.get "keyword")
  keywordAbsent : o.keywordAbsent = wholeText py (raw.get "keyword_absent")
  timeout : if isBlank (raw.get "timeout") then o.timeout = defaultTimeout py
    else py.float (raw.get "timeout") = .ok (.finite o.timeout)
  followRedirects : o.followRedirects = (truth py (raw.get "follow_redirects")).getD true
  verifyTls : o.verifyTls = (truth py (raw.get "verify_tls")).getD false

section Asked

variable {py} {raw v : JsonValue F} {clean : Option (Clean F)} {c : Clean F}

/-- **What was stored** is accepted again. -/
theorem normalize_loads_dump [DecidableEq F] (h : normalize py raw = .ok clean) :
    ∀ text ∈ dump py clean, ∃ data, JsonText.loads py.floats text = some data ∧
      normalize py data = .ok clean := by
  rintro text htext
  obtain ⟨c, rfl, rfl⟩ := Option.map_eq_some_iff.mp htext
  exact ⟨_, JsonText.loads_dumps py.floats .spaced _,
    normalize_perm h (List.mergeSort_perm _ _).symm⟩

theorem ofClean_of_isEmpty (hc : c.isEmpty = true) : ofClean py c = defaults py := by
  simp only [Clean.isEmpty, Bool.and_eq_true, Option.isNone_iff_eq_none] at hc
  obtain ⟨⟨⟨⟨⟨⟨⟨hmethod, hurl⟩, hstatus⟩, hkeyword⟩, habsent⟩, htimeout⟩, hfollow⟩, hverify⟩ := hc
  simp [ofClean, defaults, hmethod, hurl, hstatus, hkeyword, habsent, htimeout, hfollow, hverify]

/-- What is read again has the values that were kept. -/
theorem load_dump_eq [DecidableEq F] (h : normalize py raw = .ok clean)
    (hclean : clean = (some c).filter fun c => !c.isEmpty) :
    load py (dump py clean) = .ok (ofClean py c) := by
  cases hempty : c.isEmpty with
  | true =>
    obtain rfl : clean = none := by simp [hclean, hempty]
    rw [ofClean_of_isEmpty hempty]
    rfl
  | false =>
    obtain rfl : clean = some c := by simp [hclean, hempty]
    set text := JsonText.dumps py.floats .spaced (.dict (JsonText.sortKeys c.fields)) with htext
    have hne : text ≠ "" := fun heq => by
      have hpos := JsonText.length_pos_write py.floats .spaced (.dict (JsonText.sortKeys c.fields))
      have hlist := congrArg String.toList (htext.symm.trans heq)
      rw [JsonText.dumps, String.toList_ofList] at hlist
      simp [hlist] at hpos
    obtain ⟨data, hdata, hnormal⟩ := normalize_loads_dump h text rfl
    have hstored : (dump py (some c)).filter (· ≠ "") = some text :=
      Option.filter_eq_some_iff.mpr ⟨rfl, decide_eq_true hne⟩
    simp only [load, hstored, hdata, hnormal]

/-! ### The values that are kept -/

theorem trimmedText_of_ne (hv : v ≠ .null) :
    trimmedText py v = ((py.str v).toOption.map Text.strip).filter (· ≠ "") := by
  cases v with
  | null => exact absurd rfl hv
  | _ => rfl

theorem wholeText_of_ne (hv : v ≠ .null) :
    wholeText py v = (py.str v).toOption.filter (Text.strip · ≠ "") := by
  cases v with
  | null => exact absurd rfl hv
  | _ => rfl

theorem trimmedText_of_cleanStr {o : Option String} (h : cleanStr py v = .ok o) :
    trimmedText py v = o := by
  by_cases hv : v = .null
  · subst hv
    exact Except.ok.inj h
  · rw [cleanStr_of_ne hv] at h
    obtain ⟨s, hs, h⟩ := Fallible.bind_eq_ok.mp h
    obtain rfl := Except.ok.inj h
    rw [trimmedText_of_ne hv, hs]
    rfl

theorem method_asked {method : String} (h : methodOption py v = .ok method) :
    method = ((trimmedText py v).map py.upper).getD "GET" := by
  obtain ⟨o, ho, hm⟩ := Fallible.bind_eq_ok.mp h
  simp only at hm
  split_ifs at hm with hmem
  obtain rfl := Except.ok.inj hm
  rw [trimmedText_of_cleanStr ho]
  cases o with
  | none => exact upper_eq_self (Text.forall_mem_of_all rfl)
  | some s => rfl

theorem url_asked {o : Option String} (h : urlOption py v = .ok o) : o = trimmedText py v := by
  obtain ⟨cleaned, hclean, h⟩ := Fallible.bind_eq_ok.mp h
  rw [trimmedText_of_cleanStr hclean]
  cases cleaned with
  | none => exact (Except.ok.inj h).symm
  | some url =>
    obtain ⟨-, -, h⟩ := Fallible.bind_eq_ok.mp h
    exact (Except.ok.inj h).symm

/-- The stored list of status codes matches the codes that are named. -/
theorem status_asked {o : Option String} {opts : HttpOptions F} (h : statusOption py v = .ok o)
    (hopts : opts.expectedStatus = o) :
    ∃ ranges, statusRanges opts = .ok ranges ∧ ∀ code, statusMatches code ranges = true ↔
      (trimmedText py v).elim (code < 500) fun spec => Names spec code := by
  obtain ⟨cleaned, hclean, h⟩ := Fallible.bind_eq_ok.mp h
  rw [trimmedText_of_cleanStr hclean]
  cases cleaned with
  | none =>
    obtain rfl := Except.ok.inj h
    refine ⟨none, by rw [statusRanges, hopts]; rfl, fun code => ?_⟩
    simp [statusMatches]
  | some spec =>
    simp only at h
    cases hparse : parseStatusSpec spec with
    | error message =>
      rw [hparse] at h
      cases h
    | ok ranges =>
      rw [hparse] at h
      obtain rfl := Except.ok.inj h
      refine ⟨some ranges, ?_, fun code => statusMatches_iff hparse⟩
      have hne := joinParts_ne_empty hparse
      have hfilter : (some (joinParts spec)).filter (· ≠ "") = some (joinParts spec) := by
        simp [hne]
      simp only [statusRanges, hopts, hfilter, parseStatusSpec_joinParts hparse]
      rfl

theorem keyword_asked {key : String} {o : Option String} (h : keywordOption py key v = .ok o) :
    o = wholeText py v := by
  by_cases hv : v = .null
  · subst hv
    exact (Except.ok.inj h).symm
  · rw [keywordOption_of_ne hv] at h
    obtain ⟨keyword, hkeyword, h⟩ := Fallible.bind_eq_ok.mp h
    rw [wholeText_of_ne hv, hkeyword]
    split_ifs at h with hblank hlong
    · obtain rfl := Except.ok.inj h
      exact (Option.filter_eq_none_iff.mpr (by simpa [Except.toOption] using hblank)).symm
    · obtain rfl := Except.ok.inj h
      symm
      exact Option.filter_eq_some_iff.mpr ⟨rfl, decide_eq_true hblank⟩

theorem truth_asked {key : String} {o : Option Bool} (h : boolOption py key v = .ok o) :
    o = truth py v := by
  cases v with
  | null => exact (Except.ok.inj h).symm
  | bool b => exact (Except.ok.inj h).symm
  | int n | str s =>
    simp only [boolOption, asBool] at h
    split_ifs at h
    · exact (Except.ok.inj h).symm
    · cases h
  | float x => cases h
  | list items => cases h
  | dict fields => cases h

theorem timeout_asked {o : Option F} (h : timeoutOption py v = .ok o) :
    if isBlank v then o.getD (defaultTimeout py) = defaultTimeout py
    else py.float v = .ok (.finite (o.getD (defaultTimeout py))) := by
  cases o with
  | none =>
    have hblank : isBlank v = true := by
      by_contra hblank
      rw [timeoutOption, if_neg hblank] at h
      split at h
      case h_3 =>
        split_ifs at h
        cases h
      all_goals cases h
    rw [if_pos hblank]
    rfl
  | some x =>
    obtain ⟨hblank, hfloat, -⟩ := timeoutOption_eq_ok h
    rw [hblank]
    exact hfloat

theorem getD_filter_ne {α : Type} [DecidableEq α] (o : Option α) (a : α) :
    (o.filter (· ≠ a)).getD a = o.getD a := by
  cases o with
  | none => rfl
  | some b =>
    by_cases hb : b = a
    · rw [Option.filter_some_neg (by simpa using hb), hb]
      rfl
    · rw [Option.filter_some_pos (by simpa using hb)]

/-- **The values that are kept** are those that the input asks for. -/
theorem asks_ofClean [DecidableEq F] (h : normalizeValues py raw.get = .ok c) :
    Asks py raw (ofClean py c) := by
  obtain ⟨method, url, status, keyword, absent, timeout, follow, verify, hmethod, hurl, hstatus,
    hkeyword, habsent, -, htimeout, hfollow, hverify, rfl⟩ := normalizeValues_eq_ok.mp h
  refine ⟨?_, url_asked hurl, status_asked hstatus rfl, keyword_asked hkeyword,
    keyword_asked habsent, ?_, ?_, ?_⟩
  · rw [← method_asked hmethod]
    exact getD_filter_ne (some method) "GET"
  · have htimeout' := timeout_asked htimeout
    rwa [← getD_filter_ne timeout (defaultTimeout py)] at htimeout'
  · rw [← truth_asked hfollow]
    exact getD_filter_ne follow true
  · rw [← truth_asked hverify]
    exact getD_filter_ne verify false

/-- **Options survive storage**: what is kept of an input stays, is accepted again, and has the
values that the input asked for. -/
theorem load_dump [DecidableEq F] (h : normalize py raw = .ok clean) :
    normalize py (toJson clean) = .ok clean ∧
      (∀ text ∈ dump py clean, ∃ data, JsonText.loads py.floats text = some data ∧
        normalize py data = .ok clean) ∧
      ∃ o, load py (dump py clean) = .ok o ∧ Asks py raw o := by
  obtain ⟨c, hc, hclean⟩ := normalize_eq_ok h
  exact ⟨normalize_toJson h, normalize_loads_dump h, _, load_dump_eq h hclean, asks_ofClean hc⟩

end Asked

/-! ### Options that survive -/

/-- Whole numbers of seconds. -/
def wholeSeconds : FloatText ℕ where
  repr n := Nat.toDigits 10 n ++ ['.', '0']
  parse s := .finite (Nat.ofDigitChars 10 (JsonText.digits s) 0)
  isFloat_repr n := ⟨[], Nat.toDigits 10 n, ['.', '0'], [], by simp, .inl rfl,
    JsonText.isInt_toDigits n, .inr ⟨['0'], rfl, by decide, Text.forall_mem_of_all rfl⟩, .inl rfl,
      .inl (by decide)⟩
  parse_repr n := by
    have hdigits : ∀ d ∈ Nat.toDigits 10 n, d.isDigit := fun d hd =>
      Nat.isDigit_of_mem_toDigits (by decide) (by decide) hd
    rw [JsonText.digits_append hdigits (by simp), Nat.ofDigitChars_ten_toDigits]

/-- Numbers are whole numbers of seconds, letters are ASCII, and no URL is absolute. -/
def plainPython : Python ℕ where
  floats := wholeSeconds
  ofNat n := n
  le m n := m ≤ n
  str
    | .str s => .ok s
    | .int n => .ok (String.ofList (JsonText.intText n))
    | _ => .error (.value "")
  str_str _ := rfl
  float
    | .float x => .ok x
    | .int n => .ok (.finite n.toNat)
    | _ => .error (.value "")
  float_float _ := rfl
  upper s := String.ofList (s.toList.map Char.toUpper)
  upper_ascii _ _ := rfl
  toLower := .asciiOnly
  urlsplit _ := .error ""

/-- Some options. -/
def sampleRaw : JsonValue ℕ := .dict
  [("verify_tls", .str "TRUE"), ("method", .str " head "), ("url", .str "/health"),
    ("expected_status", .int 204), ("timeout", .int 10)]

/-- What is kept of them. -/
def sampleClean : Clean ℕ where
  method := some "HEAD"
  url := some "/health"
  expectedStatus := some "204"
  keyword := none
  keywordAbsent := none
  timeout := some 10
  followRedirects := none
  verifyTls := some true

theorem normalize_sample : normalize plainPython sampleRaw = .ok (some sampleClean) := by
  have hvalues : normalizeValues plainPython sampleRaw.get = .ok sampleClean := by
    refine normalizeValues_eq_ok.mpr ⟨"HEAD", some "/health", some "204", none, none, some 10, none,
      some true, ?_, ?_, ?_, ?_, ?_, ?_, ?_, ?_, ?_, ?_⟩
    · rfl
    · rfl
    · have hspec : parseStatusSpec "204" = .ok [(204, 204)] := by decide
      have hjoined : joinParts "204" = "204" := by decide
      refine Fallible.bind_eq_ok.mpr ⟨some "204", rfl, ?_⟩
      simp only [hspec, hjoined]
      rfl
    · rfl
    · rfl
    · decide
    · rfl
    · rfl
    · rfl
    · rfl
  rw [sampleRaw, normalize_dict (by decide), ← sampleRaw, hvalues]
  rfl

theorem load_dump_sample : normalize plainPython sampleRaw = .ok (some sampleClean) ∧
    ∃ o, load plainPython (dump plainPython (some sampleClean)) = .ok o ∧
      Asks plainPython sampleRaw o :=
  ⟨normalize_sample, (load_dump normalize_sample).2.2⟩

end Nodeglow.HttpChecks
