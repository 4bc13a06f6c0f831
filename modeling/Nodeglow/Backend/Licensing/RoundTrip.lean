import Nodeglow.Backend.Licensing.Verify

/-!
# Licences that are issued and verified

A licence that is issued has to be verified with the values that it was issued with, and its status
has to have a summary at any time. What is accepted where a licence is issued is refused where it is
verified for some values: an empty customer or key identifier, a limit of no tenants, and years that
are written with less than four digits. The grace period may end after the end of the calendar.

## Main results

* `verifyLicense_eq_ok` — the verification of a licence that was issued.
* `roundTrips_iff` — when licences survive.

Source: `ee/backend/nodeglow_ee/licensing.py`.
-/

namespace Nodeglow.Licensing

open Calendar (Date)

variable {F Priv Key : Type} (py : Python F) (ed : Ed25519 Priv Key)

/-! ### What is to hold -/

/-- A time to the second. -/
def toSecond (instant : ℤ) : ℤ := instant / secondMicros * secondMicros

/-- A licence has the values that it was issued with. -/
structure IsFor (lic : License F) (kid : String) (terms : Terms) (fresh : String) (now : Moment) :
    Prop where
  licenseId : lic.licenseId = terms.effectiveId fresh
  customer : lic.customer = terms.customer
  features : lic.features = terms.features
  maxTenants : lic.maxTenants = terms.maxTenants
  issuedAt : lic.issuedAt.instant = toSecond (terms.issuedAt.getD now).instant
  expiresAt : lic.expiresAt.instant = toSecond terms.expiresAt.instant
  installId : lic.installId = terms.boundId.map .str
  kid : lic.kid = kid

/-- The key of the issuer is trusted, and the installation is the one that the licence is for. -/
structure Matches (priv : Priv) (kid : String) (terms : Terms) (trusted : String → Option String)
    (installId : Option String) : Prop where
  key : trusted kid = some (Text.hexEncode (ed.toBytes (ed.publicKey priv)))
  install : ∀ id ∈ terms.boundId, installId = some id

/-- The forms of a licence that was issued as a text. -/
def IsFormOf (text form : String) : Prop :=
  ∃ fields : List (String × JsonValue F),
    text = base64Text (envelopeBytes py (.dict fields)) ∧ IsForm py (.dict fields) form

/-- **A licence survives**: in every form it is verified with its values, its status has a summary
at any time, and under another key or in another installation it is refused. -/
structure RoundTrips (priv : Priv) (kid : String) (terms : Terms) (fresh : String) (now : Moment)
    (text : String) : Prop where
  verified : ∀ form, IsFormOf py text form → ∀ trusted installId,
    Matches ed priv kid terms trusted installId →
      ∃ lic, verifyLicense py ed form trusted installId = .ok lic ∧ IsFor lic kid terms fresh now
  summary : ∀ form, IsFormOf py text form → ∀ trusted installId,
    Matches ed priv kid terms trusted installId → ∀ source time,
      ∃ status, evaluate py ed (some form) source time trusted installId = .ok status ∧
        (status.publicSummary py).isSome
  otherKey : ∀ form, IsFormOf py text form → ∀ trusted installId,
    (∀ key, publicKey py ed kid trusted = .ok key → key ≠ ed.publicKey priv) →
      ∃ e, verifyLicense py ed form trusted installId = .error e
  otherInstall : ∀ form, IsFormOf py text form → ∀ trusted installId,
    (∃ id ∈ terms.boundId, installId ≠ some id) →
      ∃ e, verifyLicense py ed form trusted installId = .error e

/-- **The values that survive.** -/
structure Sellable (kid : String) (terms : Terms) (now : Moment) : Prop where
  kid_ne : kid ≠ ""
  customer_ne : terms.customer ≠ ""
  maxTenants : ∀ n ∈ terms.maxTenants, 1 ≤ n
  issuedAt : ∀ t ∈ (terms.issuedAt.getD now).utc, Padded py t
  expiresAt : ∀ t ∈ terms.expiresAt.utc, Padded py t
  graceUntil : terms.expiresAt.instant + graceDays * dayMicros < maxMicros

section Issued

variable {py ed} {priv : Priv} {kid form fresh : String} {terms : Terms} {now : Moment}
  {payload : List UInt8} {trusted : String → Option String} {installId : Option String}

/-- The text that is issued is a form of the licence. -/
theorem isForm_base64Text (env : JsonValue F) :
    IsForm py env (base64Text (envelopeBytes py env)) := by
  refine .inl ⟨_, 0, .inl rfl, by decide, ?_⟩
  rw [base64Text, String.toList_ofList, List.replicate_zero, List.append_nil, eq_comm,
    List.filter_eq_self]
  intro c hc
  rcases Base64.mem_encode hc with rfl | ⟨n, hn, rfl⟩
  · rfl
  · simp [(Base64.digit_ne n hn).2.2.2]

theorem base64Text_envelopeBytes_injective :
    Function.Injective fun env : JsonValue F => base64Text (envelopeBytes py env) := by
  intro env env' h
  have hencode : Base64.encode (envelopeBytes py env) = Base64.encode (envelopeBytes py env') :=
    String.ofList_injective h
  have hbytes := congrArg Base64.decode hencode
  rw [Base64.decode_encode, Base64.decode_encode, Option.some.injEq] at hbytes
  have htext := congrArg Text.utf8Decode hbytes
  rw [envelopeBytes, envelopeBytes, Text.utf8Decode_utf8Bytes, Text.utf8Decode_utf8Bytes,
    Option.some.injEq] at htext
  have hload := congrArg (JsonText.loads py.floats) htext
  rw [JsonText.loads_dumps, JsonText.loads_dumps] at hload
  exact Option.some.inj hload

/-- The forms of a licence that was issued are those of its envelope. -/
theorem isFormOf_issued : IsFormOf py (base64Text (envelopeBytes py (envelope ed priv kid payload)))
    form ↔ IsForm py (envelope ed priv kid payload) form :=
  ⟨fun ⟨_, htext, hform⟩ => base64Text_envelopeBytes_injective htext ▸ hform,
    fun hform => ⟨_, rfl, hform⟩⟩

/-- The verification of the envelope of a payload. -/
theorem verifyEnvelope_envelope (priv : Priv) (kid : String) (payload : List UInt8)
    (trusted : String → Option String) (installId : Option String) :
    verifyEnvelope py ed (envelope ed priv kid payload) trusted installId =
      if kid = "" then .error (.license "the license has no key id")
      else publicKey py ed kid trusted >>= fun key =>
        if !ed.verify key (ed.sign priv (signedMessage kid payload)) (signedMessage kid payload) then
          .error (.license "the signature is not valid")
        else
          match (Text.utf8Decode payload).bind (JsonText.loads py.floats) with
          | none => .error (.license "the payload is not valid JSON")
          | some (.dict fields) => readLicense py (.dict fields) kid installId
          | some _ => .error (.license "the payload is not a JSON object") := by
  have hformat : str? ((envelope ed priv kid payload : JsonValue F).get "format") = some format := rfl
  have hkid : str? ((envelope ed priv kid payload : JsonValue F).get "kid") = some kid := rfl
  have hpayload : str? ((envelope ed priv kid payload : JsonValue F).get "payload") =
      some (base64Text payload) := rfl
  have hsignature : str? ((envelope ed priv kid payload : JsonValue F).get "signature") =
      some (base64Text (ed.sign priv (signedMessage kid payload))) := rfl
  have hdecode (bytes : List UInt8) (what : String) :
      b64decode (base64Text bytes) what = .ok bytes := by
    rw [b64decode, base64Text, String.toList_ofList, Base64.decode_encode]
  rw [verifyEnvelope, hformat, hkid, hpayload, hsignature, if_neg (not_not.mpr rfl)]
  by_cases hempty : kid = ""
  · rw [Option.filter_some_neg (by simpa using hempty), if_pos hempty]
  · have hfilter : (some kid).filter (· ≠ "") = some kid :=
      Option.filter_some_pos (by simpa using hempty)
    simp only [hfilter, hdecode, hempty, if_false]
    rfl

theorem publicKey_of_trusted (h : trusted kid = some (Text.hexEncode (ed.toBytes (ed.publicKey priv)))) :
    publicKey py ed kid trusted = .ok (ed.publicKey priv) := by
  have hne : Text.hexEncode (ed.toBytes (ed.publicKey priv)) ≠ "" := fun hempty => by
    have hback := Text.hexDecode_hexEncode (ed.toBytes (ed.publicKey priv))
    rw [hempty] at hback
    exact ed.toBytes_ne _ (Option.some.inj hback).symm
  rw [publicKey, h, Option.filter_some_pos (by simpa using hne)]
  simp [ed.ofBytes_toBytes]

/-! ### The payload -/

variable {issued expires : Moment}

/-- The payload that is issued. -/
theorem issuePayload_eq_some : issuePayload py terms fresh now = some payload ↔
    ∃ issued expires, (terms.issuedAt.getD now).utc = some issued ∧
      terms.expiresAt.utc = some expires ∧
        payload = payloadBytes py
          (payloadFields terms fresh (isoText py issued) (isoText py expires)) := by
  simp only [issuePayload, iso, Option.bind_eq_bind, Option.bind_eq_some_iff, Option.map_eq_some_iff,
    Option.pure_def, Option.some.injEq]
  constructor
  · rintro ⟨_, ⟨issued, hissued, rfl⟩, _, ⟨expires, hexpires, rfl⟩, rfl⟩
    exact ⟨issued, expires, hissued, hexpires, rfl⟩
  · rintro ⟨issued, expires, hissued, hexpires, rfl⟩
    exact ⟨_, ⟨issued, hissued, rfl⟩, _, ⟨expires, hexpires, rfl⟩, rfl⟩

/-- The payload is read again, with its keys in order. -/
theorem loads_payloadBytes (fields : List (String × JsonValue F)) :
    (Text.utf8Decode (payloadBytes py fields)).bind (JsonText.loads py.floats) =
      some (.dict (JsonText.sortKeys fields)) := by
  rw [payloadBytes, Text.utf8Decode_utf8Bytes]
  exact JsonText.loads_dumps _ _ _

theorem nodup_payloadFields (terms : Terms) (fresh issuedAt expiresAt : String) :
    ((payloadFields (F := F) terms fresh issuedAt expiresAt).map Prod.fst).Nodup := by
  rw [payloadFields]
  cases terms.boundId with
  | none =>
    exact show ["license_id", "customer", "edition", "features", "max_tenants", "issued_at",
      "expires_at"].Nodup by decide
  | some id =>
    exact show ["license_id", "customer", "edition", "features", "max_tenants", "issued_at",
      "expires_at", "install_id"].Nodup by decide

/-- The values of the payload that is read. -/
theorem get_sortKeys (terms : Terms) (fresh issuedAt expiresAt key : String) :
    (JsonValue.dict (JsonText.sortKeys
      (payloadFields (F := F) terms fresh issuedAt expiresAt))).get key =
    (JsonValue.dict (payloadFields terms fresh issuedAt expiresAt)).get key :=
  (JsonValue.get_perm (nodup_payloadFields terms fresh issuedAt expiresAt)
    (List.mergeSort_perm _ _).symm key).symm

theorem mapM_str? (items : List String) :
    (items.map (JsonValue.str : String → JsonValue F)).mapM str? = some items := by
  induction items with
  | nil => rfl
  | cons s items ih =>
    rw [List.map_cons, List.mapM_cons, ih]
    rfl

theorem textOr_str (s : String) : textOr py (.str s) = s := by
  rw [textOr, truthy, py.str_str]
  by_cases h : s = ""
  · rw [h]
    rfl
  · rw [decide_eq_true h, if_pos rfl]

theorem maxTenants?_elim (limit : Option ℤ) :
    maxTenants? (limit.elim .null .int : JsonValue F) =
      if ∀ n ∈ limit, 1 ≤ n then some limit else none := by
  cases limit with
  | none => rfl
  | some n =>
    have hall : (∀ m ∈ some n, 1 ≤ m) ↔ 1 ≤ n :=
      ⟨fun h => h n rfl, fun h m hm => Option.some.inj hm ▸ h⟩
    rw [Option.elim_some, maxTenants?, if_congr hall rfl rfl]

theorem effectiveId_ne (terms : Terms) (fresh : String) : terms.effectiveId fresh ≠ "" := by
  rw [Terms.effectiveId]
  cases hid : terms.licenseId.filter (· ≠ "") with
  | none =>
    intro h
    have hlist := congrArg String.toList h
    rw [Option.getD_none, String.toList_append] at hlist
    exact absurd (List.append_eq_nil_iff.mp hlist).1 (by decide)
  | some id => exact of_decide_eq_true (Option.filter_eq_some_iff.mp hid).2

theorem boundId_ne {id : String} (h : id ∈ terms.boundId) : id ≠ "" :=
  of_decide_eq_true (Option.filter_eq_some_iff.mp h).2

theorem truthy_bound (terms : Terms) :
    truthy py ((terms.boundId.map .str).getD .null) = terms.boundId.isSome := by
  cases hb : terms.boundId with
  | none => rfl
  | some id => exact decide_eq_true (boundId_ne hb)

/-- The licence is bound to another installation. -/
theorem truthy_bound_and (terms : Terms) (installId : Option String) :
    (truthy py ((terms.boundId.map .str).getD .null) ∧
      (str? ((terms.boundId.map .str).getD (.null : JsonValue F)) = none ∨
        str? ((terms.boundId.map .str).getD (.null : JsonValue F)) ≠ installId)) ↔
      ∃ id ∈ terms.boundId, installId ≠ some id := by
  rw [truthy_bound]
  cases terms.boundId with
  | none => simp
  | some id =>
    have hstr : str? (((some id).map .str).getD (.null : JsonValue F)) = some id := rfl
    rw [hstr]
    simp [eq_comm]

theorem ite_truthy_bound (terms : Terms) :
    (if truthy py ((terms.boundId.map .str).getD .null) then
      some ((terms.boundId.map .str).getD (.null : JsonValue F)) else none) =
      terms.boundId.map .str := by
  rw [truthy_bound]
  cases terms.boundId <;> rfl

/-- **The licence in the payload that is issued.** -/
theorem readLicense_issued (terms : Terms) (fresh kid : String) (installId : Option String)
    (issued expires : Moment) :
    readLicense py (.dict (JsonText.sortKeys
      (payloadFields terms fresh (isoText py issued) (isoText py expires)))) kid installId =
    if ∀ n ∈ terms.maxTenants, 1 ≤ n then
      parseTime py (.str (isoText py issued)) "issued_at" >>= fun issuedAt =>
      parseTime py (.str (isoText py expires)) "expires_at" >>= fun expiresAt =>
      if terms.customer = "" then .error (.license "license_id or customer is missing")
      else if ∃ id ∈ terms.boundId, installId ≠ some id then
        .error (.license "the license is bound to a different installation")
      else .ok
        { licenseId := terms.effectiveId fresh, customer := terms.customer,
          features := terms.features, maxTenants := terms.maxTenants, issuedAt := issuedAt,
          expiresAt := expiresAt, installId := terms.boundId.map .str, kid := kid }
    else .error (.license "max_tenants is malformed") := by
  set fields := payloadFields (F := F) terms fresh (isoText py issued) (isoText py expires) with hdef
  have hget (key : String) : (JsonValue.dict (JsonText.sortKeys fields)).get key =
      (JsonValue.dict fields).get key := get_sortKeys _ _ _ _ key
  have hmem {key : String} {v : JsonValue F} (h : (key, v) ∈ fields) :
      (JsonValue.dict fields).get key = v := JsonValue.get_of_mem (nodup_payloadFields _ _ _ _) h
  have hedition : (JsonValue.dict fields).get "edition" = .str edition :=
    hmem (by simp [hdef, payloadFields])
  have hfeatures : (JsonValue.dict fields).get "features" = .list (terms.features.map .str) :=
    hmem (by simp [hdef, payloadFields])
  have hlimit : (JsonValue.dict fields).get "max_tenants" = terms.maxTenants.elim .null .int :=
    hmem (by simp [hdef, payloadFields])
  have hissued : (JsonValue.dict fields).get "issued_at" = .str (isoText py issued) :=
    hmem (by simp [hdef, payloadFields])
  have hexpires : (JsonValue.dict fields).get "expires_at" = .str (isoText py expires) :=
    hmem (by simp [hdef, payloadFields])
  have hid : (JsonValue.dict fields).get "license_id" = .str (terms.effectiveId fresh) :=
    hmem (by simp [hdef, payloadFields])
  have hcustomer : (JsonValue.dict fields).get "customer" = .str terms.customer :=
    hmem (by simp [hdef, payloadFields])
  have hbound : (JsonValue.dict fields).get "install_id" = (terms.boundId.map .str).getD .null := by
    cases hb : terms.boundId with
    | none => exact JsonValue.get_of_notMem (by simp [hdef, payloadFields, hb])
    | some id => exact hmem (by simp [hdef, payloadFields, hb])
  have hedition' : ¬str? (JsonValue.str edition : JsonValue F) ≠ some edition := not_not.mpr rfl
  have hfeatures' : features? (JsonValue.list (terms.features.map .str) : JsonValue F) =
      some terms.features := mapM_str? terms.features
  rw [readLicense]
  simp only [hget, hedition, hfeatures, hlimit, hissued, hexpires, hid, hcustomer, hbound,
    hedition', hfeatures', if_false, maxTenants?_elim, textOr_str, effectiveId_ne, false_or,
    truthy_bound_and, ite_truthy_bound]
  split_ifs <;> rfl

/-- The licence that is issued, with the times that are read. -/
def issuedLicense (kid : String) (terms : Terms) (fresh : String) (issuedAt expiresAt : Moment) :
    License F :=
  { licenseId := terms.effectiveId fresh, customer := terms.customer, features := terms.features,
    maxTenants := terms.maxTenants, issuedAt := issuedAt, expiresAt := expiresAt,
    installId := terms.boundId.map .str, kid := kid }

theorem readLicense_eq_ok {lic : License F} :
    readLicense py (.dict (JsonText.sortKeys
      (payloadFields terms fresh (isoText py issued) (isoText py expires)))) kid installId = .ok lic ↔
    (∀ n ∈ terms.maxTenants, 1 ≤ n) ∧ terms.customer ≠ "" ∧
      (∀ id ∈ terms.boundId, installId = some id) ∧ ∃ issuedAt expiresAt,
        parseTime py (.str (isoText py issued)) "issued_at" = .ok issuedAt ∧
        parseTime py (.str (isoText py expires)) "expires_at" = .ok expiresAt ∧
        lic = issuedLicense kid terms fresh issuedAt expiresAt := by
  have hbound : (∀ id ∈ terms.boundId, installId = some id) ↔
      ¬∃ id ∈ terms.boundId, installId ≠ some id := by
    simp only [not_exists, not_and, not_not]
  rw [readLicense_issued, hbound]
  by_cases hlimit : ∀ n ∈ terms.maxTenants, 1 ≤ n
  · rw [if_pos hlimit]
    simp only [Fallible.bind_eq_ok]
    constructor
    · rintro ⟨issuedAt, hissued, expiresAt, hexpires, h⟩
      split_ifs at h with hcustomer hinstall
      exact ⟨hlimit, hcustomer, hinstall, issuedAt, expiresAt, hissued, hexpires,
        (Except.ok.inj h).symm⟩
    · rintro ⟨-, hcustomer, hinstall, issuedAt, expiresAt, hissued, hexpires, rfl⟩
      refine ⟨issuedAt, hissued, expiresAt, hexpires, ?_⟩
      rw [if_neg hcustomer, if_neg hinstall]
      rfl
  · rw [if_neg hlimit]
    exact ⟨fun h => absurd h nofun, fun h => absurd h.1 hlimit⟩

/-- **The verification of a licence that was issued**, in any of its forms. -/
theorem verifyLicense_eq_ok {lic : License F} (hpayload : payload = payloadBytes py
      (payloadFields terms fresh (isoText py issued) (isoText py expires)))
    (hform : IsForm py (envelope ed priv kid payload) form) :
    verifyLicense py ed form trusted installId = .ok lic ↔
      kid ≠ "" ∧ publicKey py ed kid trusted = .ok (ed.publicKey priv) ∧
        readLicense py (.dict (JsonText.sortKeys
          (payloadFields terms fresh (isoText py issued) (isoText py expires)))) kid installId =
            .ok lic := by
  have hdecode : decodeLicenseText py form = .ok (envelope ed priv kid payload) :=
    decodeLicenseText_form hform
  have hverify (key : Key) : ed.verify key (ed.sign priv (signedMessage kid payload))
      (signedMessage kid payload) = true ↔ key = ed.publicKey priv := ed.verify_sign _ _ _
  rw [verifyLicense, hdecode]
  change verifyEnvelope py ed (envelope ed priv kid payload) trusted installId = _ ↔ _
  rw [verifyEnvelope_envelope]
  by_cases hkid : kid = ""
  · rw [if_pos hkid]
    exact ⟨fun h => absurd h nofun, fun h => absurd hkid h.1⟩
  rw [if_neg hkid, Fallible.bind_eq_ok]
  constructor
  · rintro ⟨key, hkey, h⟩
    split_ifs at h with hsignature
    obtain rfl := (hverify key).mp (by simpa using hsignature)
    rw [hpayload, loads_payloadBytes] at h
    exact ⟨hkid, hkey, h⟩
  · rintro ⟨-, hkey, h⟩
    refine ⟨_, hkey, ?_⟩
    rw [(hverify _).mpr rfl, hpayload, loads_payloadBytes]
    exact h

/-! ### Times of the licence -/

variable {t m read : Moment} {name : String}

theorem utc_eq_some (h : t.utc = some m) : (m.wall : ℤ) = t.instant ∧ m.offset = 0 := by
  rw [Moment.utc, utcMoment] at h
  split_ifs at h with hrange
  obtain rfl := Option.some.inj h
  exact ⟨Int.toNat_of_nonneg hrange.1, rfl⟩

theorem utc_isSome (h : t.offset = 0) : t.utc.isSome := by
  have hwall := t.wall_lt
  rw [Moment.utc, utcMoment, dif_pos]
  · rfl
  · rw [Moment.instant, h]
    omega

/-- A time that is read is the one that was written, to the second. -/
theorem of_parseTime (hutc : t.utc = some m)
    (hread : parseTime py (.str (isoText py m)) name = .ok read) :
    Padded py m ∧ read.offset = 0 ∧ read.instant = toSecond t.instant := by
  have hpadded : Padded py m := by
    by_contra hnot
    obtain ⟨e, he⟩ := parseTime_isoText_of_not hnot name
    rw [he] at hread
    cases hread
  obtain ⟨read', hread', hoffset, hwall⟩ := parseTime_isoText hpadded name
  obtain rfl : read' = read := Except.ok.inj (hread'.symm.trans hread)
  refine ⟨hpadded, hoffset, ?_⟩
  rw [Moment.instant, hoffset, sub_zero, hwall, ← (utc_eq_some hutc).1, toSecond]
  push_cast
  rfl

/-- The grace period of a time that was read. -/
theorem addGrace_isSome (hoffset : read.offset = 0) (hread : read.instant = toSecond t.instant) :
    read.addGrace.isSome ↔ t.instant + graceDays * dayMicros < maxMicros := by
  rw [Moment.instant, hoffset, sub_zero, toSecond] at hread
  have hiff : read.wall + graceDays * dayMicros < maxMicros ↔
      t.instant + graceDays * dayMicros < maxMicros := by
    simp only [graceDays, dayMicros, maxMicros, Calendar.maxOrdinal, secondMicros] at hread ⊢
    omega
  rw [← hiff, Moment.addGrace]
  split_ifs with h <;> simp [h]

/-- The summary of a licence is defined if the end of its grace period is. -/
theorem publicSummary_isSome {s : LicenseStatus F} {lic : License F} (hs : s.license = some lic)
    (hoffset : lic.expiresAt.offset = 0) :
    (s.publicSummary py).isSome ↔ lic.graceUntil.isSome := by
  have hiso {t : Moment} (ht : t.offset = 0) : ∃ text, iso py t = some text := by
    obtain ⟨m, hm⟩ := Option.isSome_iff_exists.mp (utc_isSome ht)
    exact ⟨_, by rw [iso, hm, Option.map_some]⟩
  obtain ⟨expiresText, hexpires⟩ := hiso hoffset
  cases hgrace : lic.graceUntil with
  | none =>
    simp only [LicenseStatus.publicSummary, hs, hexpires, hgrace, Option.bind_eq_bind,
      Option.bind_none, Option.bind_fun_none, Option.isSome_none]
  | some graceUntil =>
    have hgraceOffset : graceUntil.offset = 0 := by
      rw [License.graceUntil, Moment.addGrace] at hgrace
      split_ifs at hgrace
      rw [← Option.some.inj hgrace]
      exact hoffset
    obtain ⟨graceText, hgraceText⟩ := hiso hgraceOffset
    have hmessage : ∃ message, s.message = some message := by
      rw [LicenseStatus.message, hs]
      cases s.status <;> simp [hgrace]
    obtain ⟨message, hmessage⟩ := hmessage
    simp [LicenseStatus.publicSummary, hs, hexpires, hgrace, hgraceText, hmessage]

/-- The status of a licence in a form that is verified. -/
theorem evaluate_of_verified {lic : License F} {source : Option String} {time : Moment}
    (hverified : verifyLicense py ed form trusted installId = .ok lic) :
    evaluate py ed (some form) source time trusted installId =
      statusOf lic time >>= fun status =>
        .ok { status := status, license := some lic, source := source, error := none, now := time,
              license_isSome := fun _ _ => rfl } := by
  have hne : Text.strip form ≠ "" := by
    intro hempty
    rw [verifyLicense, decodeLicenseText, hempty] at hverified
    cases hverified
  rw [evaluate, Option.filter_some_pos (by simpa using hne)]
  simp only [hverified]
  rfl

theorem exists_statusOf {lic : License F} (time : Moment) (h : lic.graceUntil.isSome) :
    ∃ status, statusOf lic time = .ok status := by
  obtain ⟨graceUntil, hsome⟩ := Option.isSome_iff_exists.mp h
  rw [statusOf, hsome]
  split_ifs <;> exact ⟨_, rfl⟩

/-! ### Which licences survive -/

/-- A form of a licence that was issued. -/
theorem exists_form {text : String} (h : issueLicense py ed priv kid terms fresh now = some text) :
    ∃ issued expires, (terms.issuedAt.getD now).utc = some issued ∧
      terms.expiresAt.utc = some expires ∧ ∀ form, IsFormOf py text form ↔
        IsForm py (envelope ed priv kid (payloadBytes py
          (payloadFields terms fresh (isoText py issued) (isoText py expires)))) form := by
  obtain ⟨payload, hpayload, rfl⟩ := Option.map_eq_some_iff.mp h
  obtain ⟨issued, expires, hissued, hexpires, rfl⟩ := issuePayload_eq_some.mp hpayload
  exact ⟨issued, expires, hissued, hexpires, fun form => isFormOf_issued⟩

/-- A text is issued if the times are within the calendar. -/
theorem exists_issueLicense (hissued : (terms.issuedAt.getD now).utc.isSome)
    (hexpires : terms.expiresAt.utc.isSome) :
    ∃ text, issueLicense py ed priv kid terms fresh now = some text := by
  obtain ⟨issued, hissued⟩ := Option.isSome_iff_exists.mp hissued
  obtain ⟨expires, hexpires⟩ := Option.isSome_iff_exists.mp hexpires
  exact ⟨_, Option.map_eq_some_iff.mpr
    ⟨_, issuePayload_eq_some.mpr ⟨issued, expires, hissued, hexpires, rfl⟩, rfl⟩⟩

/-- Of a licence that survives, the values do. -/
theorem RoundTrips.sellable {text : String}
    (htext : issueLicense py ed priv kid terms fresh now = some text)
    (h : RoundTrips py ed priv kid terms fresh now text) : Sellable py kid terms now := by
  obtain ⟨issued, expires, hissued, hexpires, hforms⟩ := exists_form htext
  set payload := payloadBytes py
    (payloadFields terms fresh (isoText py issued) (isoText py expires)) with hpayload
  set form := base64Text (envelopeBytes py (envelope ed priv kid payload))
  have hform : IsForm py (envelope ed priv kid payload) form := isForm_base64Text _
  let trusted : String → Option String := fun _ =>
    some (Text.hexEncode (ed.toBytes (ed.publicKey priv)))
  have hmatches : Matches ed priv kid terms trusted terms.boundId := ⟨rfl, fun _ h => h⟩
  obtain ⟨lic, hverified, -⟩ := h.verified form ((hforms form).mpr hform) trusted _ hmatches
  obtain ⟨hkid, -, hread⟩ := (verifyLicense_eq_ok hpayload hform).mp hverified
  obtain ⟨hlimit, hcustomer, -, issuedAt, expiresAt, hparse, hparse', rfl⟩ :=
    readLicense_eq_ok.mp hread
  obtain ⟨hpadded, -, -⟩ := of_parseTime hissued hparse
  obtain ⟨hpadded', hoffset, hinstant⟩ := of_parseTime hexpires hparse'
  refine ⟨hkid, hcustomer, hlimit, fun t ht => ?_, fun t ht => ?_, ?_⟩
  · rwa [← Option.some.inj (hissued.symm.trans ht)]
  · rwa [← Option.some.inj (hexpires.symm.trans ht)]
  · -- At the time it expires, the licence is valid, and its summary says when the grace period ends.
    obtain ⟨status, hstatus, hsome⟩ :=
      h.summary form ((hforms form).mpr hform) trusted _ hmatches none expiresAt
    rw [evaluate_of_verified hverified] at hstatus
    obtain ⟨_, -, hok⟩ := Fallible.bind_eq_ok.mp hstatus
    obtain rfl := Except.ok.inj hok
    rw [publicSummary_isSome rfl hoffset] at hsome
    exact (addGrace_isSome hoffset hinstant).mp hsome

/-- Licences with these values survive. -/
theorem Sellable.roundTrips {text : String} (h : Sellable py kid terms now)
    (htext : issueLicense py ed priv kid terms fresh now = some text) :
    RoundTrips py ed priv kid terms fresh now text := by
  obtain ⟨issued, expires, hissued, hexpires, hforms⟩ := exists_form htext
  obtain ⟨issuedAt, hparse, -⟩ := parseTime_isoText (h.issuedAt _ hissued) "issued_at"
  obtain ⟨expiresAt, hparse', -⟩ := parseTime_isoText (h.expiresAt _ hexpires) "expires_at"
  obtain ⟨-, -, hinstant⟩ := of_parseTime hissued hparse
  obtain ⟨-, hoffset, hinstant'⟩ := of_parseTime hexpires hparse'
  have hgrace : (issuedLicense (F := F) kid terms fresh issuedAt expiresAt).graceUntil.isSome :=
    (addGrace_isSome hoffset hinstant').mpr h.graceUntil
  have hverified {form trusted installId} (hform : IsFormOf py text form)
      (hmatches : Matches ed priv kid terms trusted installId) :
      verifyLicense py ed form trusted installId =
        .ok (issuedLicense kid terms fresh issuedAt expiresAt) :=
    (verifyLicense_eq_ok rfl ((hforms form).mp hform)).mpr ⟨h.kid_ne,
      publicKey_of_trusted hmatches.key, readLicense_eq_ok.mpr ⟨h.maxTenants, h.customer_ne,
        hmatches.install, issuedAt, expiresAt, hparse, hparse', rfl⟩⟩
  have hrefused {form trusted installId} (hnot : ∀ lic : License F,
      verifyLicense py ed form trusted installId ≠ .ok lic) :
      ∃ e, verifyLicense py ed form trusted installId = .error e := by
    cases hverify : verifyLicense py ed form trusted installId with
    | error e => exact ⟨e, rfl⟩
    | ok lic => exact absurd hverify (hnot lic)
  refine ⟨fun form hform trusted installId hmatches => ?_,
    fun form hform trusted installId hmatches source time => ?_,
    fun form hform trusted installId hkeys => hrefused fun lic hlic => ?_,
    fun form hform trusted installId hother => hrefused fun lic hlic => ?_⟩
  · exact ⟨_, hverified hform hmatches, ⟨rfl, rfl, rfl, rfl, hinstant, hinstant', rfl, rfl⟩⟩
  · obtain ⟨status, hstatus⟩ := exists_statusOf time hgrace
    rw [evaluate_of_verified (hverified hform hmatches), hstatus]
    exact ⟨_, rfl, (publicSummary_isSome rfl hoffset).mpr hgrace⟩
  · obtain ⟨-, hkey, -⟩ := (verifyLicense_eq_ok rfl ((hforms form).mp hform)).mp hlic
    exact hkeys _ hkey rfl
  · obtain ⟨-, -, hread⟩ := (verifyLicense_eq_ok rfl ((hforms form).mp hform)).mp hlic
    obtain ⟨-, -, hinstall, -⟩ := readLicense_eq_ok.mp hread
    obtain ⟨id, hid, hne⟩ := hother
    exact hne (hinstall id hid)

/-- **Which licences survive** being issued and verified. -/
theorem roundTrips_iff {text : String}
    (htext : issueLicense py ed priv kid terms fresh now = some text) :
    RoundTrips py ed priv kid terms fresh now text ↔ Sellable py kid terms now :=
  ⟨fun h => h.sellable htext, fun h => h.roundTrips htext⟩

end Issued

/-! ### A licence for some tenants, and one for none -/

/-- The number that some characters write. -/
def number (s : List Char) (start count : ℕ) : ℕ := Nat.ofDigitChars 10 ((s.drop start).take count) 0

/-- The microseconds of a date and a time of the day. -/
def readMicros (s : List Char) : ℕ :=
  (Calendar.daysBeforeYear (number s 0 4) + Calendar.daysBeforeMonth (number s 0 4) (number s 5 2) +
      number s 8 2 - 1) * dayMicros +
    (number s 11 2 * 3600 + number s 14 2 * 60 + number s 17 2) * secondMicros

/-- Times of UTC in the extended format. -/
def readUtc (s : List Char) : Option ({t : ℕ // t < maxMicros} × Option ℤ) :=
  if h : ((s.take 4).all Char.isDigit ∧ s.drop 19 = "+00:00".toList) ∧ readMicros s < maxMicros then
    some (⟨readMicros s, h.2⟩, some 0)
  else none

theorem ofDigitChars_two (n acc : ℕ) (s : List Char) :
    Nat.ofDigitChars 10 (two n ++ s) acc = Nat.ofDigitChars 10 s (acc * 100 + n % 100) := by
  have hdigit : ∀ k < 10, k.digitChar.toNat - '0'.toNat = k := by decide
  have h10 (k : ℕ) : (k % 10).digitChar.toNat - '0'.toNat = k % 10 :=
    hdigit _ (Nat.mod_lt _ (by decide))
  rw [two, Nat.ofDigitChars, List.cons_append, List.cons_append, List.foldl_cons, List.foldl_cons,
    List.nil_append, h10, h10, Nat.ofDigitChars]
  congr 1
  omega

theorem readMicros_iso (d : Date) {second : ℕ} (hsecond : second < 86400) (s : List Char) :
    readMicros (four d.year ++ restText d second ++ s) =
      (d.toOrdinal - 1) * dayMicros + second * secondMicros := by
  have htwo (n : ℕ) : Nat.ofDigitChars 10 (two n) 0 = n % 100 := by
    simpa using ofDigitChars_two n 0 []
  have hyear : number (four d.year ++ restText d second ++ s) 0 4 = d.year := by
    have hle := d.year_le
    have hfour : Nat.ofDigitChars 10 (two (d.year / 100) ++ two d.year) 0 = d.year := by
      rw [ofDigitChars_two, ← List.append_nil (two d.year), ofDigitChars_two]
      change (0 * 100 + d.year / 100 % 100) * 100 + d.year % 100 = d.year
      omega
    exact hfour
  have hmonth : number (four d.year ++ restText d second ++ s) 5 2 = d.month % 100 := htwo _
  have hday : number (four d.year ++ restText d second ++ s) 8 2 = d.day % 100 := htwo _
  have hhour : number (four d.year ++ restText d second ++ s) 11 2 = second / 3600 % 100 := htwo _
  have hminute : number (four d.year ++ restText d second ++ s) 14 2 = second / 60 % 60 % 100 :=
    htwo _
  have hsec : number (four d.year ++ restText d second ++ s) 17 2 = second % 60 % 100 := htwo _
  have hmonth' : d.month % 100 = d.month := Nat.mod_eq_of_lt (by have := d.month_le; omega)
  have hday' : d.day % 100 = d.day := by
    have hle := d.day_le
    have h31 : Calendar.daysInMonth d.year d.month ≤ 31 := by
      rw [Calendar.daysInMonth]
      split_ifs <;> decide
    omega
  rw [readMicros, hyear, hmonth, hday, hhour, hminute, hsec, hmonth', hday', Date.toOrdinal]
  congr 2
  omega

/-- No floating-point numbers. -/
def noFloats : FloatText Empty where
  repr := nofun
  parse _ := .nan
  isFloat_repr := nofun
  parse_repr := nofun

/-- Texts and times, and the years as the GNU C library writes them. -/
def plainPython : Python Empty where
  floats := noFloats
  isZero := nofun
  str | .str s => s | _ => ""
  str_str _ := rfl
  repr _ := ""
  padsYear := false
  fromisoformat s := readUtc s.toList
  fromisoformat_utc d second hsecond := by
    have hordinal := d.toOrdinal_le
    have hone : 1 ≤ d.toOrdinal := Nat.le_trans d.one_le_day (Nat.le_add_left _ _)
    have hmicros := readMicros_iso d hsecond "+00:00".toList
    have hlt : readMicros (four d.year ++ restText d second ++ "+00:00".toList) < maxMicros := by
      rw [hmicros]
      simp only [dayMicros, maxMicros, secondMicros]
      omega
    have hdigits : ((four d.year ++ restText d second ++ "+00:00".toList).take 4).all Char.isDigit := by
      have htake : (four d.year ++ restText d second ++ "+00:00".toList).take 4 = four d.year := rfl
      rw [htake, List.all_eq_true]
      intro c hc
      simp only [four, two, List.mem_append, List.mem_pair] at hc
      rcases hc with (rfl | rfl) | rfl | rfl <;> exact (digitChar_ne _).2
    rw [String.toList_ofList, readUtc, dif_pos ⟨⟨hdigits, rfl⟩, hlt⟩]
    exact ⟨_, rfl, hmicros⟩
  fromisoformat_year s h := by
    obtain ⟨c, hc, hdigit⟩ := h
    refine dif_neg fun hall => ?_
    rw [List.all_eq_true.mp hall.1.1 c hc] at hdigit
    cases hdigit

/-- Two keys. -/
def twoKeys : Ed25519 Bool Bool where
  publicKey := id
  sign priv message := (if priv then 1 else 0) :: message
  verify key signature message := signature = (if key then 1 else 0) :: message
  toBytes key := [if key then 1 else 0]
  ofBytes bytes := if bytes = [1] then some true else if bytes = [0] then some false else none
  ofBytes_toBytes := by decide
  toBytes_ne := by decide
  verify_sign priv message key := by
    cases priv <;> cases key <;> simp

/-- The end of the year 2036. -/
def sampleExpiry : Moment where
  wall := 743634 * dayMicros - secondMicros
  offset := 0
  wall_lt := by decide

/-- The start of the year 2026. -/
def sampleNow : Moment where
  wall := 739616 * dayMicros
  offset := 0
  wall_lt := by decide

/-- The terms of a licence for some tenants. -/
def sampleTerms (maxTenants : ℤ) : Terms where
  customer := "Example"
  expiresAt := sampleExpiry
  features := ["*"]
  maxTenants := some maxTenants
  installId := some "5f"
  licenseId := none
  issuedAt := none

theorem padded_of_utc {t m : Moment} (hutc : t.utc = some m)
    (h : Calendar.daysBeforeYear 1000 < t.wall / dayMicros + 1) (hoffset : t.offset = 0) :
    Padded plainPython m := by
  have hwall := (utc_eq_some hutc).1
  rw [Moment.instant, hoffset, sub_zero, Int.natCast_inj] at hwall
  exact .inr (Date.le_year_ofOrdinal _ _ (by decide) (hwall ▸ h))

theorem sellable_sample : Sellable plainPython "ng-2026-09" (sampleTerms 5) sampleNow where
  kid_ne := by decide
  customer_ne := by decide
  maxTenants n hn := Option.some.inj hn ▸ by decide
  issuedAt _ ht := padded_of_utc ht (by decide) rfl
  expiresAt _ ht := padded_of_utc ht (by decide) rfl
  graceUntil := by decide

theorem issueLicense_sample (maxTenants : ℤ) : ∃ text, issueLicense plainPython twoKeys true
    "ng-2026-09" (sampleTerms maxTenants) "9f86d081884c7d65" sampleNow = some text :=
  exists_issueLicense (utc_isSome rfl) (utc_isSome rfl)

theorem roundTrips_sample : ∃ text, issueLicense plainPython twoKeys true "ng-2026-09"
      (sampleTerms 5) "9f86d081884c7d65" sampleNow = some text ∧
    RoundTrips plainPython twoKeys true "ng-2026-09" (sampleTerms 5) "9f86d081884c7d65" sampleNow
      text := by
  obtain ⟨text, htext⟩ := issueLicense_sample 5
  exact ⟨text, htext, (roundTrips_iff htext).mpr sellable_sample⟩

/-- **A licence for no tenants is issued**, and it is refused where it is installed. -/
theorem not_roundTrips_sample : ¬∀ (priv : Bool) (kid : String) (terms : Terms) (fresh : String)
    (now : Moment) (text : String),
    issueLicense plainPython twoKeys priv kid terms fresh now = some text →
      RoundTrips plainPython twoKeys priv kid terms fresh now text := by
  intro hall
  obtain ⟨text, htext⟩ := issueLicense_sample 0
  have hsellable := (hall _ _ _ _ _ _ htext).sellable htext
  exact absurd (hsellable.maxTenants 0 rfl) (by decide)

end Nodeglow.Licensing
