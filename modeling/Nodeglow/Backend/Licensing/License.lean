import Nodeglow.Foundation.Base64
import Nodeglow.Foundation.Calendar
import Nodeglow.Foundation.JsonText

/-!
# Licences

A licence is a signed JSON document with a customer, features, a limit of tenants, and the time at
which it expires. After that time there is a grace period.

Signatures, floating-point numbers, the text forms of values and the reading of times are given. A
time is written with the year as the C library writes it, which may leave years before 1000 without
leading zeros.

## Main results

* `parseTime_isoText` — a time that was written is read again, to the second, if its year is padded.

Source: `ee/backend/nodeglow_ee/licensing.py`, lines 62–225.
-/

namespace Nodeglow.Licensing

open Calendar (Date)

/-! ### Times -/

/-- The microseconds of a second and of a day. -/
def secondMicros : ℕ := 1000000

def dayMicros : ℕ := 86400 * secondMicros

/-- The microseconds of the calendar. -/
def maxMicros : ℕ := Calendar.maxOrdinal * dayMicros

/-- An aware `datetime`: the microseconds on its clock since the first of January of the year one,
and its offset to UTC. -/
structure Moment where
  wall : ℕ
  offset : ℤ
  wall_lt : wall < maxMicros

/-- The time in UTC, which may lie outside the calendar. -/
def Moment.instant (t : Moment) : ℤ := t.wall - t.offset

/-- The date on the clock. -/
def Moment.date (t : Moment) : Date :=
  Date.ofOrdinal (t.wall / dayMicros + 1) (Nat.le_add_left _ _)
    (Nat.div_lt_of_lt_mul (by rw [Nat.mul_comm]; exact t.wall_lt))

/-- The second of the day on the clock. -/
def Moment.second (t : Moment) : ℕ := t.wall % dayMicros / secondMicros

/-- A time of the calendar in UTC. -/
def utcMoment (instant : ℤ) : Option Moment :=
  if h : 0 ≤ instant ∧ instant < maxMicros then
    some { wall := instant.toNat, offset := 0, wall_lt := by omega }
  else none

/-- `dt.astimezone(timezone.utc)`: `none` is an `OverflowError`. -/
def Moment.utc (t : Moment) : Option Moment := utcMoment t.instant

/-- `GRACE_DAYS`. -/
def graceDays : ℕ := 14

/-- `dt + timedelta(days=GRACE_DAYS)`. -/
def Moment.addGrace (t : Moment) : Option Moment :=
  if h : t.wall + graceDays * dayMicros < maxMicros then
    some { wall := t.wall + graceDays * dayMicros, offset := t.offset, wall_lt := h }
  else none

/-- Two digits. -/
def two (n : ℕ) : List Char := [Nat.digitChar (n / 10 % 10), Nat.digitChar (n % 10)]

/-- Four digits. -/
def four (n : ℕ) : List Char := two (n / 100) ++ two n

/-- The text of a date and a second of the day, after the year. -/
def restText (d : Date) (second : ℕ) : List Char :=
  '-' :: (two d.month ++ '-' :: (two d.day ++ 'T' :: (two (second / 3600) ++
    ':' :: (two (second / 60 % 60) ++ ':' :: two (second % 60)))))

/-! ### What is given -/

/-- What is raised: a `LicenseError`, another `ValueError`, or an `OverflowError`. -/
inductive Error
  | license (message : String)
  | value
  | overflow

/-- Ed25519: keys and their bytes, signing, and verification, which accepts a signature under the
key of the signer only. -/
structure Ed25519 (Priv Key : Type) where
  publicKey : Priv → Key
  sign : Priv → List UInt8 → List UInt8
  verify : Key → List UInt8 → List UInt8 → Bool
  toBytes : Key → List UInt8
  ofBytes : List UInt8 → Option Key
  ofBytes_toBytes : ∀ key, ofBytes (toBytes key) = some key
  toBytes_ne : ∀ key, toBytes key ≠ []
  verify_sign : ∀ priv message key,
    verify key (sign priv message) message = true ↔ key = publicKey priv

/-- Python: floating-point numbers, `str` and `repr`, whether `strftime` pads the year, and
`datetime.fromisoformat`, which returns the microseconds on the clock, and the offset if there is
one. It reads times in the extended format, and refuses texts that do not start with a year of four
digits. -/
structure Python (F : Type) where
  floats : FloatText F
  isZero : F → Bool
  str : JsonValue F → String
  str_str : ∀ s, str (.str s) = s
  repr : JsonValue F → String
  padsYear : Bool
  fromisoformat : String → Option ({t : ℕ // t < maxMicros} × Option ℤ)
  fromisoformat_utc : ∀ (d : Date) (second : ℕ), second < 86400 → ∃ t,
    fromisoformat (String.ofList (four d.year ++ restText d second ++ "+00:00".toList)) =
      some (t, some 0) ∧ t.1 = (d.toOrdinal - 1) * dayMicros + second * secondMicros
  fromisoformat_year : ∀ s : String, (∃ c ∈ s.toList.take 4, c.isDigit = false) →
    fromisoformat s = none

variable {F : Type} (py : Python F)

/-- The year as `%Y`. -/
def yearText (y : ℕ) : List Char := if py.padsYear then four y else Nat.toDigits 10 y

/-- A time of UTC as `%Y-%m-%dT%H:%M:%SZ`. -/
def isoText (t : Moment) : String :=
  String.ofList (yearText py t.date.year ++ restText t.date t.second ++ ['Z'])

/-- `_iso`. -/
def iso (t : Moment) : Option String := t.utc.map (isoText py)

/-- `date().isoformat()`. -/
def isoDate (t : Moment) : String :=
  String.ofList (four t.date.year ++ '-' :: (two t.date.month ++ '-' :: two t.date.day))

/-- `value.replace("Z", "+00:00")`. -/
def replaceZ (s : String) : String :=
  String.ofList (s.toList.flatMap fun c => if c = 'Z' then "+00:00".toList else [c])

/-- `_parse_time`. -/
def parseTime (v : JsonValue F) (name : String) : Except Error Moment :=
  match v with
  | .str "" => .error (.license (name ++ " is missing"))
  | .str s =>
    match py.fromisoformat (replaceZ s) with
    | none => .error (.license (name ++ " is not an ISO 8601 time"))
    | some (t, offset) => .ok { wall := t.1, offset := offset.getD 0, wall_lt := t.2 }
  | _ => .error (.license (name ++ " is missing"))

/-! ### Writing and reading times -/

section Times

variable {py} {t : Moment} {y n : ℕ}

theorem digitChar_ne (n : ℕ) : (n % 10).digitChar ≠ 'Z' ∧ (n % 10).digitChar.isDigit = true := by
  have hall : ∀ k < 10, k.digitChar ≠ 'Z' ∧ k.digitChar.isDigit = true := by decide
  exact hall (n % 10) (Nat.mod_lt _ (by decide))

theorem ne_of_mem_two {c : Char} (hc : c ∈ two n) : c ≠ 'Z' := by
  rcases List.mem_pair.mp hc with rfl | rfl
  · exact (digitChar_ne _).1
  · exact (digitChar_ne _).1

theorem ne_of_mem_restText {d : Date} {c : Char} (hc : c ∈ restText d n) : c ≠ 'Z' := by
  simp only [restText, List.mem_cons, List.mem_append] at hc
  rcases hc with rfl | hc | rfl | hc | rfl | hc | rfl | hc | rfl | hc
  · decide
  · exact ne_of_mem_two hc
  · decide
  · exact ne_of_mem_two hc
  · decide
  · exact ne_of_mem_two hc
  · decide
  · exact ne_of_mem_two hc
  · decide
  · exact ne_of_mem_two hc

theorem ne_of_mem_yearText {c : Char} (hc : c ∈ yearText py y) : c ≠ 'Z' := by
  rw [yearText] at hc
  split_ifs at hc
  · rcases List.mem_append.mp hc with hc | hc <;> exact ne_of_mem_two hc
  · rintro rfl
    exact absurd (Nat.isDigit_of_mem_toDigits (by decide) (by decide) hc) (by decide)

theorem flatMap_replaceZ {s : List Char} (hs : ∀ c ∈ s, c ≠ 'Z') :
    (s.flatMap fun c => if c = 'Z' then "+00:00".toList else [c]) = s := by
  induction s with
  | nil => rfl
  | cons c s ih =>
    obtain ⟨hc, hs⟩ := List.forall_mem_cons.mp hs
    rw [List.flatMap_cons, if_neg hc, ih hs, List.singleton_append]

theorem replaceZ_isoText (t : Moment) : replaceZ (isoText py t) =
    String.ofList (yearText py t.date.year ++ restText t.date t.second ++ "+00:00".toList) := by
  have hall : ∀ c ∈ yearText py t.date.year ++ restText t.date t.second, c ≠ 'Z' := fun c hc =>
    (List.mem_append.mp hc).elim ne_of_mem_yearText ne_of_mem_restText
  rw [replaceZ, isoText, String.toList_ofList (l := _ ++ _), List.flatMap_append,
    flatMap_replaceZ hall]
  rfl

/-- The year has four digits. -/
def Padded (py : Python F) (t : Moment) : Prop := py.padsYear ∨ 1000 ≤ t.date.year

theorem toDigits_eq_four (hy : 1000 ≤ y) (hmax : y ≤ 9999) : Nat.toDigits 10 y = four y := by
  have h1 : ¬y < 10 := by omega
  have h2 : ¬y / 10 < 10 := by omega
  have h3 : ¬y / 10 / 10 < 10 := by omega
  have h4 : y / 10 / 10 / 10 < 10 := by omega
  rw [Nat.toDigits_eq_if (by decide), if_neg h1, Nat.toDigits_eq_if (by decide), if_neg h2,
    Nat.toDigits_eq_if (by decide), if_neg h3, Nat.toDigits_eq_if (by decide), if_pos h4]
  have e1 : y / 10 / 10 / 10 = y / 100 / 10 % 10 := by omega
  have e2 : y / 10 / 10 % 10 = y / 100 % 10 := by omega
  rw [four, two, two, e1, e2]
  rfl

theorem yearText_of_padded (h : Padded py t) : yearText py t.date.year = four t.date.year := by
  rw [yearText]
  split_ifs with hpads
  · rfl
  · exact toDigits_eq_four (h.resolve_left hpads) t.date.year_le

/-- The time of a moment, to the second. -/
theorem wall_eq (t : Moment) : (t.date.toOrdinal - 1) * dayMicros + t.second * secondMicros =
    t.wall / secondMicros * secondMicros := by
  rw [Moment.date, Date.toOrdinal_ofOrdinal, Moment.second, Nat.add_sub_cancel, dayMicros,
    secondMicros]
  omega

theorem second_lt (t : Moment) : t.second < 86400 := by
  rw [Moment.second, dayMicros, secondMicros]
  omega

theorem isoText_ne (t : Moment) : isoText py t ≠ "" := by
  intro h
  have hlist := congrArg String.toList h
  rw [isoText, String.toList_ofList] at hlist
  simp at hlist

theorem parseTime_str {s name : String} (hs : s ≠ "") : parseTime py (.str s) name =
    match py.fromisoformat (replaceZ s) with
    | none => .error (.license (name ++ " is not an ISO 8601 time"))
    | some (t, offset) => .ok { wall := t.1, offset := offset.getD 0, wall_lt := t.2 } := by
  rw [parseTime]
  exact fun h => hs (by simpa using h)

/-- **A time that was written is read again**, to the second, if its year is padded. -/
theorem parseTime_isoText (h : Padded py t) (name : String) : ∃ m : Moment,
    parseTime py (.str (isoText py t)) name = .ok m ∧ m.offset = 0 ∧
      m.wall = t.wall / secondMicros * secondMicros := by
  obtain ⟨t', hparse, ht'⟩ := py.fromisoformat_utc t.date t.second (second_lt t)
  rw [parseTime_str (isoText_ne t), replaceZ_isoText, yearText_of_padded h, hparse]
  exact ⟨_, rfl, rfl, ht'.trans (wall_eq t)⟩

/-- Otherwise it is refused. -/
theorem parseTime_isoText_of_not (h : ¬Padded py t) (name : String) :
    ∃ e, parseTime py (.str (isoText py t)) name = .error e := by
  obtain ⟨hpads, hyear⟩ := not_or.mp h
  have hlength : (Nat.toDigits 10 t.date.year).length ≤ 3 :=
    (Nat.length_toDigits_le_iff (by decide) (by decide)).mpr (Nat.not_le.mp hyear)
  have hrefused : py.fromisoformat (String.ofList
      (yearText py t.date.year ++ restText t.date t.second ++ "+00:00".toList)) = none := by
    refine py.fromisoformat_year _ ⟨'-', ?_, by decide⟩
    obtain ⟨k, hk⟩ : ∃ k, 4 - (Nat.toDigits 10 t.date.year).length = k + 1 :=
      ⟨3 - (Nat.toDigits 10 t.date.year).length, by omega⟩
    rw [String.toList_ofList, yearText, if_neg hpads, restText, List.append_assoc,
      List.take_append, hk]
    exact List.mem_append_right _ List.mem_cons_self
  rw [parseTime_str (isoText_ne t), replaceZ_isoText, hrefused]
  exact ⟨_, rfl⟩

end Times

/-! ### Licences -/

/-- `License`. -/
structure License (F : Type) where
  licenseId : String
  customer : String
  features : List String
  maxTenants : Option ℤ
  issuedAt : Moment
  expiresAt : Moment
  installId : Option (JsonValue F)
  kid : String

/-- `License.grace_until`. -/
def License.graceUntil (lic : License F) : Option Moment := lic.expiresAt.addGrace

/-- The state of a licence. -/
inductive Status
  | missing
  | invalid
  | valid
  | grace
  | expired
deriving DecidableEq

/-- The name of a state. -/
def Status.name : Status → String
  | .missing => "missing"
  | .invalid => "invalid"
  | .valid => "valid"
  | .grace => "grace"
  | .expired => "expired"

/-- `LicenseStatus`. A licence that is valid, in its grace period or expired is there. -/
structure LicenseStatus (F : Type) where
  status : Status
  license : Option (License F)
  source : Option String
  error : Option String
  now : Moment
  license_isSome : status ≠ .missing → status ≠ .invalid → license.isSome

/-- `LicenseStatus.message`: `none` is an `OverflowError`. -/
def LicenseStatus.message (s : LicenseStatus F) : Option String :=
  match s.status, s.license with
  | .missing, _ =>
    some "No license installed: enterprise features are inactive. Monitoring is not affected."
  | .invalid, _ =>
    some ("The installed license cannot be used (" ++ s.error.getD "None" ++
      "). Enterprise features are inactive. Monitoring is not affected.")
  | .grace, some lic => lic.graceUntil.map fun graceUntil =>
    "The license expired on " ++ isoDate lic.expiresAt ++ ". Enterprise features keep working until " ++
      isoDate graceUntil ++ "; renew it before then."
  | .expired, _ =>
    some ("The license has expired. Monitoring keeps running and existing data stays " ++
      "visible, but enterprise features are blocked until a new license is installed.")
  | _, some lic =>
    some ("Licensed to " ++ lic.customer ++ " until " ++ isoDate lic.expiresAt ++ ".")
  | _, none => none

/-- `LicenseStatus.days_left`. -/
def LicenseStatus.daysLeft (s : LicenseStatus F) : Option ℤ :=
  s.license.map fun lic => (lic.expiresAt.instant - s.now.instant) / dayMicros

/-- What `public` returns. -/
structure Summary where
  status : String
  message : String
  expiresAt : Option String
  graceUntil : Option String
  daysLeft : Option ℤ

/-- `LicenseStatus.public`: `none` is an `OverflowError`. -/
def LicenseStatus.publicSummary (s : LicenseStatus F) : Option Summary := do
  let message ← s.message
  match s.license with
  | none => return { status := s.status.name, message, expiresAt := none, graceUntil := none,
                     daysLeft := s.daysLeft }
  | some lic =>
    let expiresAt ← iso py lic.expiresAt
    let graceUntil ← (← lic.graceUntil) |> iso py
    return { status := s.status.name, message, expiresAt := some expiresAt,
             graceUntil := some graceUntil, daysLeft := s.daysLeft }

end Nodeglow.Licensing
