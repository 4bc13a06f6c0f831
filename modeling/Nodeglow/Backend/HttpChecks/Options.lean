import Mathlib.Data.List.Dedup
import Nodeglow.Backend.HttpChecks.StatusSpec
import Nodeglow.Foundation.JsonText

/-!
# Options of an HTTP check

The options that a user gives for an HTTP check are validated, and those that differ from the
defaults are kept.

The text forms of values, upper and lower case, floating-point numbers and the parts of URLs are
given.

## Main results

* `normalize_toJson` — what is kept is valid, and stays as it is.

Source: `backend/utils/http_options.py`.
-/

namespace Nodeglow.HttpChecks

/-- The parts of a URL that are looked at. -/
structure UrlParts where
  scheme : String
  hostname : Option String
  username : Option String
  password : Option String

/-- What is raised: a `ValueError` or a `TypeError`, or an `OverflowError`. -/
inductive Error
  | value (message : String)
  | overflow

/-- Python: the text form and the comparison of floating-point numbers, `str` and `float` of a
value, `str.upper` and `str.lower`, and `urlsplit`. -/
structure Python (F : Type) where
  floats : FloatText F
  ofNat : ℕ → F
  le : F → F → Bool
  str : JsonValue F → Except Error String
  str_str : ∀ s, str (.str s) = .ok s
  float : JsonValue F → Except Error (PyFloat F)
  float_float : ∀ x, float (.float x) = .ok x
  upper : String → String
  upper_ascii : ∀ s, (∀ c ∈ s.toList, c.toNat < 128) →
    upper s = String.ofList (s.toList.map Char.toUpper)
  toLower : Text.Lower
  urlsplit : String → Except String UrlParts

/-- `HttpOptions`. -/
structure HttpOptions (F : Type) where
  method : String
  url : Option String
  expectedStatus : Option String
  keyword : Option String
  keywordAbsent : Option String
  timeout : F
  followRedirects : Bool
  verifyTls : Bool

/-- The options that are kept. -/
structure Clean (F : Type) where
  method : Option String
  url : Option String
  expectedStatus : Option String
  keyword : Option String
  keywordAbsent : Option String
  timeout : Option F
  followRedirects : Option Bool
  verifyTls : Option Bool

/-- The keys of the options. -/
def optionKeys : List String :=
  ["method", "url", "expected_status", "keyword", "keyword_absent", "timeout", "follow_redirects",
    "verify_tls"]

variable {F : Type}

/-- Nothing is kept. -/
def Clean.isEmpty (c : Clean F) : Bool :=
  c.method.isNone && c.url.isNone && c.expectedStatus.isNone && c.keyword.isNone &&
    c.keywordAbsent.isNone && c.timeout.isNone && c.followRedirects.isNone && c.verifyTls.isNone

/-- The fields of the object that is stored, of which some are missing. -/
def Clean.optional (c : Clean F) : List (String × Option (JsonValue F)) :=
  [("method", c.method.map .str), ("url", c.url.map .str),
    ("expected_status", c.expectedStatus.map .str), ("keyword", c.keyword.map .str),
    ("keyword_absent", c.keywordAbsent.map .str),
    ("timeout", c.timeout.map fun x => .float (.finite x)),
    ("follow_redirects", c.followRedirects.map .bool), ("verify_tls", c.verifyTls.map .bool)]

/-- The object that is stored. -/
def Clean.fields (c : Clean F) : List (String × JsonValue F) := JsonValue.someFields c.optional

/-- What `normalize` returns, as a value. -/
def toJson : Option (Clean F) → JsonValue F
  | none => .null
  | some c => .dict c.fields

variable (py : Python F)

/-- `_clean_str`. -/
def cleanStr (v : JsonValue F) : Except Error (Option String) :=
  match v with
  | .null => .ok none
  | v => do
    let s ← py.str v
    return some (Text.strip s) |>.filter (· ≠ "")

/-- `_as_bool`. -/
def asBool (key : String) (v : JsonValue F) : Except Error Bool :=
  let invalid := Error.value (key ++ " must be true or false")
  match v with
  | .bool b => .ok b
  | .str s =>
    let s := py.toLower.lower s
    if s ∈ ["true", "false", "1", "0"] then .ok (s ∈ ["true", "1"]) else .error invalid
  | .int n => if n = 0 ∨ n = 1 then .ok (n ≠ 0) else .error invalid
  | _ => .error invalid

/-- The method, which is `GET` if there is none. -/
def methodOption (v : JsonValue F) : Except Error String := do
  let method := py.upper ((← cleanStr py v).getD "GET")
  if method ∈ ["GET", "HEAD"] then return method
  else .error (.value "method must be GET or HEAD")

/-- A text that is not missing or empty. -/
def given (s : Option String) : Bool := s.any (· ≠ "")

/-- The checks of a URL. -/
def checkUrl (url : String) : Except Error Unit :=
  if 2048 < url.length then .error (.value "url is too long")
  else if url.toList.any Text.isSpace ∨ url.toList.any fun c => c.toNat < 32 then
    .error (.value "url must not contain whitespace or control characters")
  else if url.toList.head? = some '/' then
    if url.toList.take 2 = ['/', '/'] then .error (.value "path must start with a single '/'")
    else .ok ()
  else
    match py.urlsplit url with
    | .error message => .error (.value message)
    | .ok parts =>
      if parts.scheme ∉ ["http", "https"] ∨ ¬given parts.hostname then
        .error (.value "url must be a path starting with '/' or an http(s):// URL")
      else if given parts.username ∨ given parts.password then
        .error (.value "url must not contain credentials")
      else .ok ()

/-- The URL. -/
def urlOption (v : JsonValue F) : Except Error (Option String) := do
  match ← cleanStr py v with
  | none => return none
  | some url =>
    checkUrl py url
    return some url

/-- The list of status codes. -/
def statusOption (v : JsonValue F) : Except Error (Option String) := do
  match ← cleanStr py v with
  | none => return none
  | some spec =>
    match parseStatusSpec spec with
    | .error message => .error (.value message)
    | .ok _ => return some (joinParts spec)

/-- A keyword, which is not trimmed. -/
def keywordOption (key : String) (v : JsonValue F) : Except Error (Option String) :=
  match v with
  | .null => .ok none
  | v => do
    let keyword ← py.str v
    if Text.strip keyword = "" then return none
    else if 200 < keyword.length then .error (.value (key ++ " is longer than 200 characters"))
    else return some keyword

/-- The default of the timeout. -/
def defaultTimeout : F := py.ofNat 5

/-- `timeout in (None, "")`. -/
def isBlank : JsonValue F → Bool
  | .null => true
  | .str s => s = ""
  | _ => false

/-- The timeout: `none` where none is given. -/
def timeoutOption (v : JsonValue F) : Except Error (Option F) :=
  if isBlank v then .ok none
  else
    match py.float v with
    | .error .overflow => .error .overflow
    | .error (.value _) => .error (.value "timeout must be a number of seconds")
    | .ok (.finite x) =>
      if py.le (py.ofNat 1) x ∧ py.le x (py.ofNat 60) then .ok (some x)
      else .error (.value "timeout must be between 1 and 60 seconds")
    | .ok _ => .error (.value "timeout must be between 1 and 60 seconds")

/-- An option that is true or false: `none` where none is given. -/
def boolOption (key : String) (v : JsonValue F) : Except Error (Option Bool) :=
  match v with
  | .null => .ok none
  | v => (asBool py key v).map some

/-- The values of the options, after the check of their keys. -/
def normalizeValues [DecidableEq F] (get : String → JsonValue F) : Except Error (Clean F) := do
  let method ← methodOption py (get "method")
  let url ← urlOption py (get "url")
  let expectedStatus ← statusOption py (get "expected_status")
  let keyword ← keywordOption py "keyword" (get "keyword")
  let keywordAbsent ← keywordOption py "keyword_absent" (get "keyword_absent")
  if method = "HEAD" ∧ (keyword.isSome ∨ keywordAbsent.isSome) then
    .error (.value "keyword checks need GET — a HEAD response has no body")
  else
    let timeout ← timeoutOption py (get "timeout")
    let followRedirects ← boolOption py "follow_redirects" (get "follow_redirects")
    let verifyTls ← boolOption py "verify_tls" (get "verify_tls")
    return {
      method := (some method).filter (· ≠ "GET")
      url := url
      expectedStatus := expectedStatus
      keyword := keyword
      keywordAbsent := keywordAbsent
      timeout := timeout.filter (· ≠ defaultTimeout py)
      followRedirects := followRedirects.filter (· ≠ true)
      verifyTls := verifyTls.filter (· ≠ false) }

/-- The keys that are none of an option, in order. -/
def unknownKeys (fields : List (String × JsonValue F)) : List String :=
  (((fields.map Prod.fst).filter (· ∉ optionKeys)).dedup).mergeSort fun a b => decide (a ≤ b)

/-- `normalize`. -/
def normalize [DecidableEq F] (raw : JsonValue F) : Except Error (Option (Clean F)) :=
  match raw with
  | .null => .ok none
  | .dict fields =>
    let unknown := unknownKeys fields
    if unknown ≠ [] then
      .error (.value ("unknown http option(s): " ++ String.intercalate ", " unknown))
    else do
      let clean ← normalizeValues py raw.get
      return (some clean).filter fun c => !c.isEmpty
  | _ => .error (.value "http_options must be an object")

/-! ### What is kept stays -/

section Stays

variable {py} {v : JsonValue F} {s url keyword method key : String} {b : Bool} {x : F}

theorem cleanStr_of_ne (hv : v ≠ .null) :
    cleanStr py v = py.str v >>= fun s => .ok ((some (Text.strip s)).filter (· ≠ "")) := by
  cases v with
  | null => exact absurd rfl hv
  | _ => rfl

theorem cleanStr_eq_ok (h : cleanStr py v = .ok (some s)) : s ≠ "" ∧ Text.strip s = s := by
  by_cases hv : v = .null
  · subst hv
    cases h
  · rw [cleanStr_of_ne hv] at h
    obtain ⟨t, -, ht⟩ := Fallible.bind_eq_ok.mp h
    obtain ⟨ht, hne⟩ := Option.filter_eq_some_iff.mp (Except.ok.inj ht)
    obtain rfl := Option.some.inj ht
    exact ⟨of_decide_eq_true hne, Text.strip_strip t⟩

theorem cleanStr_str (hne : s ≠ "") (hstrip : Text.strip s = s) :
    cleanStr py (.str s) = .ok (some s) := by
  have hv : JsonValue.str s ≠ (.null : JsonValue F) := nofun
  refine (cleanStr_of_ne hv).trans (Fallible.bind_eq_ok.mpr ⟨s, py.str_str s, ?_⟩)
  simp [hstrip, hne]

theorem methodOption_eq_ok (h : methodOption py v = .ok method) :
    method = "GET" ∨ method = "HEAD" := by
  obtain ⟨o, -, hm⟩ := Fallible.bind_eq_ok.mp h
  simp only at hm
  split_ifs at hm with hmem
  obtain rfl := Except.ok.inj hm
  simpa using hmem

/-- Upper case of a text that is in upper case. -/
theorem upper_eq_self (hs : ∀ c ∈ s.toList, c.toNat < 128 ∧ c.toUpper = c) : py.upper s = s := by
  rw [py.upper_ascii s fun c hc => (hs c hc).1, List.map_congr_left fun c hc => (hs c hc).2,
    List.map_id', String.ofList_toList]

theorem methodOption_null : methodOption py .null = .ok "GET" := by
  have hget : py.upper "GET" = "GET" := upper_eq_self (Text.forall_mem_of_all rfl)
  refine Fallible.bind_eq_ok.mpr ⟨none, rfl, ?_⟩
  simp [hget, pure, Except.pure]

theorem methodOption_stays (h : methodOption py v = .ok method) :
    methodOption py ((((some method).filter (· ≠ "GET")).map JsonValue.str).getD .null) =
      .ok method := by
  rcases methodOption_eq_ok h with rfl | rfl
  · exact methodOption_null
  · have hhead : py.upper "HEAD" = "HEAD" := upper_eq_self (Text.forall_mem_of_all rfl)
    refine Fallible.bind_eq_ok.mpr ⟨some "HEAD", cleanStr_str (by decide) (by decide), ?_⟩
    simp [hhead, pure, Except.pure]

theorem urlOption_stays {o : Option String} (h : urlOption py v = .ok o) :
    urlOption py ((o.map JsonValue.str).getD .null) = .ok o := by
  obtain ⟨cleaned, hclean, h⟩ := Fallible.bind_eq_ok.mp h
  cases cleaned with
  | none =>
    obtain rfl := Except.ok.inj h
    rfl
  | some url =>
    obtain ⟨⟨⟩, hcheck, h⟩ := Fallible.bind_eq_ok.mp h
    obtain rfl := Except.ok.inj h
    obtain ⟨hne, hstrip⟩ := cleanStr_eq_ok hclean
    refine Fallible.bind_eq_ok.mpr ⟨some url, cleanStr_str hne hstrip, ?_⟩
    exact Fallible.bind_eq_ok.mpr ⟨(), hcheck, rfl⟩

theorem statusOption_stays {o : Option String} (h : statusOption py v = .ok o) :
    statusOption py ((o.map JsonValue.str).getD .null) = .ok o := by
  obtain ⟨cleaned, hclean, h⟩ := Fallible.bind_eq_ok.mp h
  cases cleaned with
  | none =>
    obtain rfl := Except.ok.inj h
    rfl
  | some spec =>
    simp only at h
    cases hparse : parseStatusSpec spec with
    | error message =>
      rw [hparse] at h
      cases h
    | ok ranges =>
      rw [hparse] at h
      obtain rfl := Except.ok.inj h
      have hclean' : cleanStr py (.str (joinParts spec)) = .ok (some (joinParts spec)) :=
        cleanStr_str (joinParts_ne_empty hparse) (strip_joinParts spec)
      refine Fallible.bind_eq_ok.mpr ⟨some (joinParts spec), hclean', ?_⟩
      simp only [parseStatusSpec_joinParts hparse]
      rw [joinParts, statusParts_joinParts, ← joinParts]
      rfl

theorem keywordOption_of_ne (hv : v ≠ .null) :
    keywordOption py key v = py.str v >>= fun keyword =>
      if Text.strip keyword = "" then .ok none
      else if 200 < keyword.length then .error (.value (key ++ " is longer than 200 characters"))
      else .ok (some keyword) := by
  cases v with
  | null => exact absurd rfl hv
  | _ => rfl

theorem keywordOption_stays {o : Option String} (h : keywordOption py key v = .ok o) :
    keywordOption py key ((o.map JsonValue.str).getD .null) = .ok o := by
  by_cases hv : v = .null
  · subst hv
    obtain rfl := Except.ok.inj h
    rfl
  · rw [keywordOption_of_ne hv] at h
    obtain ⟨keyword, -, h⟩ := Fallible.bind_eq_ok.mp h
    split_ifs at h with hblank hlong
    · obtain rfl := Except.ok.inj h
      rfl
    · obtain rfl := Except.ok.inj h
      have hv' : JsonValue.str keyword ≠ (.null : JsonValue F) := nofun
      refine (keywordOption_of_ne hv').trans (Fallible.bind_eq_ok.mpr ⟨keyword, py.str_str _, ?_⟩)
      rw [if_neg hblank, if_neg hlong]

/-- A timeout that is given. -/
theorem timeoutOption_eq_ok {x : F} (h : timeoutOption py v = .ok (some x)) :
    isBlank v = false ∧ py.float v = .ok (.finite x) ∧ py.le (py.ofNat 1) x ∧
      py.le x (py.ofNat 60) := by
  rw [timeoutOption] at h
  split_ifs at h with hblank
  · cases h
  · split at h
    case h_3 y hfloat =>
      split_ifs at h with hrange
      obtain rfl := Option.some.inj (Except.ok.inj h)
      exact ⟨eq_false_of_ne_true hblank, hfloat, hrange⟩
    all_goals cases h

theorem timeoutOption_float {x : F} (hmin : py.le (py.ofNat 1) x) (hmax : py.le x (py.ofNat 60)) :
    timeoutOption py (.float (.finite x)) = .ok (some x) := by
  simp [timeoutOption, isBlank, py.float_float, hmin, hmax]

theorem timeoutOption_stays [DecidableEq F] {o : Option F} (h : timeoutOption py v = .ok o) :
    timeoutOption py (((o.filter (· ≠ defaultTimeout py)).map fun x => .float (.finite x)).getD
      .null) = .ok (o.filter (· ≠ defaultTimeout py)) := by
  cases o with
  | none => rfl
  | some x =>
    obtain ⟨-, -, hmin, hmax⟩ := timeoutOption_eq_ok h
    cases hkept : (some x).filter (· ≠ defaultTimeout py) with
    | none => rfl
    | some y =>
      obtain rfl := Option.some.inj (Option.filter_eq_some_iff.mp hkept).1
      exact timeoutOption_float hmin hmax

theorem boolOption_stays (default : Bool) (o : Option Bool) :
    boolOption py key (((o.filter (· ≠ default)).map JsonValue.bool).getD .null) =
      .ok (o.filter (· ≠ default)) := by
  cases o.filter (· ≠ default) <;> rfl

/-- The values that are accepted, one by one. -/
theorem normalizeValues_eq_ok [DecidableEq F] {get : String → JsonValue F} {c : Clean F} :
    normalizeValues py get = .ok c ↔ ∃ method url expectedStatus keyword keywordAbsent timeout
      followRedirects verifyTls,
      methodOption py (get "method") = .ok method ∧ urlOption py (get "url") = .ok url ∧
      statusOption py (get "expected_status") = .ok expectedStatus ∧
      keywordOption py "keyword" (get "keyword") = .ok keyword ∧
      keywordOption py "keyword_absent" (get "keyword_absent") = .ok keywordAbsent ∧
      ¬(method = "HEAD" ∧ (keyword.isSome ∨ keywordAbsent.isSome)) ∧
      timeoutOption py (get "timeout") = .ok timeout ∧
      boolOption py "follow_redirects" (get "follow_redirects") = .ok followRedirects ∧
      boolOption py "verify_tls" (get "verify_tls") = .ok verifyTls ∧
      c = { method := (some method).filter (· ≠ "GET")
            url := url
            expectedStatus := expectedStatus
            keyword := keyword
            keywordAbsent := keywordAbsent
            timeout := timeout.filter (· ≠ defaultTimeout py)
            followRedirects := followRedirects.filter (· ≠ true)
            verifyTls := verifyTls.filter (· ≠ false) } := by
  simp only [normalizeValues, Fallible.bind_eq_ok]
  constructor
  · rintro ⟨method, hmethod, url, hurl, status, hstatus, keyword, hkeyword, absent, habsent, h⟩
    split_ifs at h with hhead
    simp only [Fallible.bind_eq_ok] at h
    obtain ⟨timeout, htimeout, follow, hfollow, verify, hverify, h⟩ := h
    exact ⟨method, url, status, keyword, absent, timeout, follow, verify, hmethod, hurl, hstatus,
      hkeyword, habsent, hhead, htimeout, hfollow, hverify, (Except.ok.inj h).symm⟩
  · rintro ⟨method, url, status, keyword, absent, timeout, follow, verify, hmethod, hurl, hstatus,
      hkeyword, habsent, hhead, htimeout, hfollow, hverify, rfl⟩
    refine ⟨method, hmethod, url, hurl, status, hstatus, keyword, hkeyword, absent, habsent, ?_⟩
    rw [if_neg hhead]
    simp only [Fallible.bind_eq_ok]
    exact ⟨timeout, htimeout, follow, hfollow, verify, hverify, rfl⟩

/-- The value of a field that is stored. -/
theorem Clean.get_fields {c : Clean F} {o : Option (JsonValue F)} (h : (key, o) ∈ c.optional) :
    (JsonValue.dict c.fields).get key = o.getD .null :=
  JsonValue.get_someFields (show optionKeys.Nodup by decide) h

theorem filter_filter_self {α : Type} (o : Option α) (p : α → Bool) :
    (o.filter p).filter p = o.filter p := by
  rw [Option.filter_filter]
  simp

/-- **What is kept** is accepted, and stays as it is. -/
theorem normalizeValues_stays [DecidableEq F] {get : String → JsonValue F} {c : Clean F}
    (h : normalizeValues py get = .ok c) (get' : String → JsonValue F)
    (hget : ∀ key ∈ optionKeys, get' key = (JsonValue.dict c.fields).get key) :
    normalizeValues py get' = .ok c := by
  obtain ⟨method, url, status, keyword, absent, timeout, follow, verify, hmethod, hurl, hstatus,
    hkeyword, habsent, hhead, htimeout, hfollow, hverify, rfl⟩ := normalizeValues_eq_ok.mp h
  have hfield {key : String} (o : Option (JsonValue F)) (hkey : key ∈ optionKeys)
      (hmem : (key, o) ∈ Clean.optional _) : get' key = o.getD .null :=
    (hget key hkey).trans (Clean.get_fields hmem)
  refine normalizeValues_eq_ok.mpr ⟨method, url, status, keyword, absent,
    timeout.filter (· ≠ defaultTimeout py), follow.filter (· ≠ true), verify.filter (· ≠ false),
    ?_, ?_, ?_, ?_, ?_, hhead, ?_, ?_, ?_, ?_⟩
  · rw [hfield (((some method).filter (· ≠ "GET")).map .str) (by decide) (by simp [Clean.optional])]
    exact methodOption_stays hmethod
  · rw [hfield (url.map .str) (by decide) (by simp [Clean.optional])]
    exact urlOption_stays hurl
  · rw [hfield (status.map .str) (by decide) (by simp [Clean.optional])]
    exact statusOption_stays hstatus
  · rw [hfield (keyword.map .str) (by decide) (by simp [Clean.optional])]
    exact keywordOption_stays hkeyword
  · rw [hfield (absent.map .str) (by decide) (by simp [Clean.optional])]
    exact keywordOption_stays habsent
  · rw [hfield ((timeout.filter (· ≠ defaultTimeout py)).map fun x => .float (.finite x))
      (by decide) (by simp [Clean.optional])]
    exact timeoutOption_stays htimeout
  · rw [hfield ((follow.filter (· ≠ true)).map .bool) (by decide) (by simp [Clean.optional])]
    exact boolOption_stays true follow
  · rw [hfield ((verify.filter (· ≠ false)).map .bool) (by decide) (by simp [Clean.optional])]
    exact boolOption_stays false verify
  · rw [filter_filter_self, filter_filter_self, filter_filter_self]

theorem normalize_dict [DecidableEq F] {fields : List (String × JsonValue F)}
    (hkeys : ∀ key ∈ fields.map Prod.fst, key ∈ optionKeys) :
    normalize py (.dict fields) = normalizeValues py (JsonValue.dict fields).get >>= fun clean =>
      .ok ((some clean).filter fun c => !c.isEmpty) := by
  have hunknown : unknownKeys fields = [] := by
    have hfilter : (fields.map Prod.fst).filter (· ∉ optionKeys) = [] := by
      rw [List.filter_eq_nil_iff]
      exact fun key hkey => by simp [hkeys key hkey]
    rw [unknownKeys, hfilter]
    simp
  rw [normalize]
  simp only [hunknown, ne_eq, not_true_eq_false, if_false]
  rfl

/-- Without values, nothing is kept. -/
theorem normalizeValues_null [DecidableEq F] (py : Python F) : ∃ c : Clean F,
    normalizeValues py (JsonValue.null : JsonValue F).get = .ok c ∧ c.isEmpty = true :=
  ⟨_, normalizeValues_eq_ok.mpr ⟨"GET", none, none, none, none, none, none, none,
    methodOption_null, rfl, rfl, rfl, rfl, by decide, rfl, rfl, rfl, rfl⟩, rfl⟩

/-- What is accepted, and what is kept of it. -/
theorem normalize_eq_ok [DecidableEq F] {clean : Option (Clean F)}
    (h : normalize py v = .ok clean) : ∃ c, normalizeValues py v.get = .ok c ∧
      clean = (some c).filter fun c => !c.isEmpty := by
  cases v with
  | null =>
    obtain ⟨c, hc, hempty⟩ := normalizeValues_null py
    obtain rfl := Except.ok.inj h
    exact ⟨c, hc, (Option.filter_eq_none_iff.mpr (by simpa using hempty)).symm⟩
  | dict fields =>
    rw [normalize] at h
    split_ifs at h with hunknown
    obtain ⟨c, hc, h⟩ := Fallible.bind_eq_ok.mp h
    exact ⟨c, hc, (Except.ok.inj h).symm⟩
  | bool b => cases h
  | int n => cases h
  | float x => cases h
  | str s => cases h
  | list items => cases h

theorem Clean.keys_fields {c : Clean F} : ∀ key ∈ c.fields.map Prod.fst, key ∈ optionKeys :=
  fun _ hkey => (JsonValue.keys_someFields_sublist (l := c.optional)).subset hkey

theorem Clean.nodup_fields (c : Clean F) : (c.fields.map Prod.fst).Nodup :=
  (JsonValue.keys_someFields_sublist (l := c.optional)).nodup (show optionKeys.Nodup by decide)

/-- **What is kept** stays, in any order of the keys. -/
theorem normalize_perm [DecidableEq F] {c : Clean F} {fields : List (String × JsonValue F)}
    (h : normalize py v = .ok (some c)) (hperm : c.fields.Perm fields) :
    normalize py (.dict fields) = .ok (some c) := by
  obtain ⟨c', hvalues, hsome⟩ := normalize_eq_ok h
  obtain rfl : c = c' := (Option.some.inj (Option.filter_eq_some_iff.mp hsome.symm).1).symm
  have hkeys : ∀ key ∈ fields.map Prod.fst, key ∈ optionKeys := fun key hkey =>
    c.keys_fields key ((hperm.map Prod.fst).symm.subset hkey)
  have hstays := normalizeValues_stays hvalues (JsonValue.dict fields).get fun key _ =>
    (JsonValue.get_perm c.nodup_fields hperm key).symm
  rw [normalize_dict hkeys, hstays]
  exact congrArg Except.ok hsome.symm

theorem normalize_toJson [DecidableEq F] {clean : Option (Clean F)}
    (h : normalize py v = .ok clean) : normalize py (toJson clean) = .ok clean := by
  cases clean with
  | none => rfl
  | some c => exact normalize_perm h (List.Perm.refl _)

end Stays

end Nodeglow.HttpChecks
