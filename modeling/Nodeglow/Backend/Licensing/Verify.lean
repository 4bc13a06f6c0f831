import Nodeglow.Backend.Licensing.License
import Nodeglow.Foundation.Fallible

/-!
# Issuing and verifying licences

A licence is issued as an envelope in Base64 on one line, with the payload and its signature. It is
verified under the trusted keys, also as the plain envelope, in the alphabet for URLs, without
padding, or with white space.

## Main results

* `decodeLicenseText_form` — every form is read as the envelope.

Source: `ee/backend/nodeglow_ee/licensing.py`, lines 207–343, 366–389.
-/

namespace Nodeglow.Licensing

variable {F Priv Key : Type} (py : Python F) (ed : Ed25519 Priv Key)

/-- `FORMAT`. -/
def format : String := "nodeglow-license/1"

/-- `EDITION`. -/
def edition : String := "enterprise"

/-- `_signed_message`. -/
def signedMessage (kid : String) (payload : List UInt8) : List UInt8 :=
  Text.utf8Bytes format ++ [10] ++ Text.utf8Bytes kid ++ [10] ++ payload

/-! ### Issuing -/

/-- The terms of a licence. -/
structure Terms where
  customer : String
  expiresAt : Moment
  features : List String
  maxTenants : Option ℤ
  installId : Option String
  licenseId : Option String
  issuedAt : Option Moment

/-- The identifier: the given one, or a fresh one. -/
def Terms.effectiveId (terms : Terms) (fresh : String) : String :=
  (terms.licenseId.filter (· ≠ "")).getD ("lic_" ++ fresh)

/-- The identifier of the installation, if there is one. -/
def Terms.boundId (terms : Terms) : Option String := terms.installId.filter (· ≠ "")

/-- The fields of the payload. -/
def payloadFields (terms : Terms) (fresh issuedAt expiresAt : String) :
    List (String × JsonValue F) :=
  [("license_id", .str (terms.effectiveId fresh)), ("customer", .str terms.customer),
    ("edition", .str edition), ("features", .list (terms.features.map .str)),
    ("max_tenants", terms.maxTenants.elim .null .int), ("issued_at", .str issuedAt),
    ("expires_at", .str expiresAt)] ++
  (terms.boundId.map fun id => ("install_id", .str id)).toList

/-- The bytes of the payload. -/
def payloadBytes (fields : List (String × JsonValue F)) : List UInt8 :=
  Text.utf8Bytes (JsonText.dumps py.floats .compact (.dict (JsonText.sortKeys fields)))

/-- `base64.b64encode(…).decode()`. -/
def base64Text (bytes : List UInt8) : String := String.ofList (Base64.encode bytes)

/-- The envelope of a payload. -/
def envelope (priv : Priv) (kid : String) (payload : List UInt8) : JsonValue F :=
  .dict [("format", .str format), ("kid", .str kid), ("payload", .str (base64Text payload)),
    ("signature", .str (base64Text (ed.sign priv (signedMessage kid payload))))]

/-- The bytes of an envelope. -/
def envelopeBytes (env : JsonValue F) : List UInt8 :=
  Text.utf8Bytes (JsonText.dumps py.floats .compact env)

/-- The payload that is issued: `none` is an `OverflowError`. -/
def issuePayload (terms : Terms) (fresh : String) (now : Moment) : Option (List UInt8) := do
  let issuedAt ← iso py (terms.issuedAt.getD now)
  let expiresAt ← iso py terms.expiresAt
  return payloadBytes py (payloadFields terms fresh issuedAt expiresAt)

/-- `issue_license`: `none` is an `OverflowError`. -/
def issueLicense (priv : Priv) (kid : String) (terms : Terms) (fresh : String) (now : Moment) :
    Option String :=
  (issuePayload py terms fresh now).map fun payload =>
    base64Text (envelopeBytes py (envelope ed priv kid payload))

/-! ### Verification -/

/-- `"".join(text.split())`. -/
def compact (text : String) : List Char := (Text.words text).flatMap String.toList

/-- `decode_license_text`. -/
def decodeLicenseText (text : String) : Except Error (JsonValue F) := do
  let text := Text.strip text
  if text = "" then .error (.license "the license is empty")
  else
    let decoded := if text.toList.head? = some '\x7b' then some text
      else (Base64.decodeAny (Base64.pad (compact text))).bind Text.utf8Decode
    match decoded with
    | none => .error (.license "the license is neither JSON nor base64")
    | some text =>
      match JsonText.loads py.floats text with
      | none => .error (.license "the license is not valid JSON")
      | some (.dict fields) => .ok (.dict fields)
      | some _ => .error (.license "the license is not a JSON object")

/-- `_public_key`. -/
def publicKey (kid : String) (trusted : String → Option String) : Except Error Key :=
  match (trusted kid).filter (· ≠ "") with
  | none => .error (.license ("unknown signing key " ++ py.repr (.str kid)))
  | some hex =>
    match (Text.hexDecode hex).bind ed.ofBytes with
    | none => .error .value
    | some key => .ok key

/-- `_b64decode`. -/
def b64decode (value what : String) : Except Error (List UInt8) :=
  match Base64.decode value.toList with
  | none => .error (.license (what ++ " is not valid base64"))
  | some bytes => .ok bytes

/-- Truth values. -/
def truthy : JsonValue F → Bool
  | .null => false
  | .bool b => b
  | .int n => n ≠ 0
  | .float (.finite x) => !py.isZero x
  | .float _ => true
  | .str s => s ≠ ""
  | .list items => !items.isEmpty
  | .dict fields => !fields.isEmpty

/-- `str(value or "")`. -/
def textOr (v : JsonValue F) : String := if truthy py v then py.str v else ""

/-- The text of a string. -/
def str? : JsonValue F → Option String
  | .str s => some s
  | _ => none

/-- The features, if they are a list of texts. -/
def features? : JsonValue F → Option (List String)
  | .list items => items.mapM str?
  | _ => none

/-- The limit of tenants, if it is missing or a positive integer. `True` is one. -/
def maxTenants? : JsonValue F → Option (Option ℤ)
  | .null => some none
  | .int n => if 1 ≤ n then some (some n) else none
  | .bool true => some (some 1)
  | _ => none

/-- The licence in a payload. -/
def readLicense (data : JsonValue F) (kid : String) (installId : Option String) :
    Except Error (License F) := do
  if str? (data.get "edition") ≠ some edition then
    .error (.license ("the license is for edition " ++ py.repr (data.get "edition")))
  else
    match features? (data.get "features"), maxTenants? (data.get "max_tenants") with
    | none, _ => .error (.license "the feature list is malformed")
    | some _, none => .error (.license "max_tenants is malformed")
    | some features, some maxTenants =>
      let issuedAt ← parseTime py (data.get "issued_at") "issued_at"
      let expiresAt ← parseTime py (data.get "expires_at") "expires_at"
      let bound := data.get "install_id"
      let lic : License F :=
        { licenseId := textOr py (data.get "license_id")
          customer := textOr py (data.get "customer")
          features := features
          maxTenants := maxTenants
          issuedAt := issuedAt
          expiresAt := expiresAt
          installId := if truthy py bound then some bound else none
          kid := kid }
      if lic.licenseId = "" ∨ lic.customer = "" then
        .error (.license "license_id or customer is missing")
      else if truthy py bound ∧ (str? bound = none ∨ str? bound ≠ installId) then
        .error (.license "the license is bound to a different installation")
      else .ok lic

/-- The verification of an envelope. -/
def verifyEnvelope (env : JsonValue F) (trusted : String → Option String)
    (installId : Option String) : Except Error (License F) :=
  if str? (env.get "format") ≠ some format then .error (.license "unsupported license format")
  else
    match (str? (env.get "kid")).filter (· ≠ "") with
    | none => .error (.license "the license has no key id")
    | some kid =>
      match str? (env.get "payload"), str? (env.get "signature") with
      | some payload, some signature => do
        let payload ← b64decode payload "payload"
        let signature ← b64decode signature "signature"
        let key ← publicKey py ed kid trusted
        if !ed.verify key signature (signedMessage kid payload) then
          .error (.license "the signature is not valid")
        else
          match (Text.utf8Decode payload).bind (JsonText.loads py.floats) with
          | none => .error (.license "the payload is not valid JSON")
          | some (.dict fields) => readLicense py (.dict fields) kid installId
          | some _ => .error (.license "the payload is not a JSON object")
      | _, _ => .error (.license "the license has no payload or signature")

/-- `verify_license`. -/
def verifyLicense (text : String) (trusted : String → Option String) (installId : Option String) :
    Except Error (License F) := do
  let env ← decodeLicenseText py text
  verifyEnvelope py ed env trusted installId

/-- The state of a licence that was verified. -/
def statusOf (lic : License F) (now : Moment) : Except Error Status :=
  if now.instant ≤ lic.expiresAt.instant then .ok .valid
  else
    match lic.graceUntil with
    | none => .error .overflow
    | some graceUntil => .ok (if now.instant ≤ graceUntil.instant then .grace else .expired)

/-- `evaluate`. -/
def evaluate (text : Option String) (source : Option String) (now : Moment)
    (trusted : String → Option String) (installId : Option String) :
    Except Error (LicenseStatus F) :=
  match text.filter (Text.strip · ≠ "") with
  | none => .ok { status := .missing, license := none, source := none, error := none, now := now,
                  license_isSome := fun h => absurd rfl h }
  | some text =>
    match verifyLicense py ed text trusted installId with
    | .error (.license message) =>
      .ok { status := .invalid, license := none, source := source, error := some message, now := now,
            license_isSome := fun _ h => absurd rfl h }
    | .error e => .error e
    | .ok lic => do
      let status ← statusOf lic now
      return { status := status, license := some lic, source := source, error := none, now := now,
               license_isSome := fun _ _ => rfl }

/-! ### The forms of a licence -/

/-- **A form of a licence**: its text or that in the alphabet for URLs, of which padding may be
missing and into which white space may be inserted, or the envelope as JSON between white space. -/
def IsForm (env : JsonValue F) (form : String) : Prop :=
  (∃ s n, (s = Base64.encode (envelopeBytes py env) ∨
      s = (Base64.encode (envelopeBytes py env)).map Base64.urlSafe) ∧
    n < 4 ∧ s = (form.toList.filter fun c => !Text.isSpace c) ++ List.replicate n '=') ∨
  ∃ sep, Text.strip form = JsonText.dumps py.floats sep env

section Forms

variable {py} {ed} {form : String} {env : JsonValue F} {fields : List (String × JsonValue F)}

/-- The text of a licence, in one of the alphabets, has a multiple of four characters and no brace.
-/
theorem of_encode {s : List Char} {bytes : List UInt8}
    (h : s = Base64.encode bytes ∨ s = (Base64.encode bytes).map Base64.urlSafe) :
    s.length % 4 = 0 ∧ Base64.decodeAny s = some bytes ∧ '\x7b' ∉ s := by
  have hbrace : ∀ n < 64, Base64.digit n ≠ '\x7b' ∧ Base64.urlSafe (Base64.digit n) ≠ '\x7b' := by
    decide
  rcases h with rfl | rfl
  · refine ⟨Base64.length_encode_mod bytes, Base64.decodeAny_encode bytes, fun hmem => ?_⟩
    rcases Base64.mem_encode hmem with heq | ⟨n, hn, heq⟩
    · cases heq
    · exact (hbrace n hn).1 heq.symm
  · refine ⟨by rw [List.length_map]; exact Base64.length_encode_mod bytes,
      Base64.decodeAny_urlSafe bytes, fun hmem => ?_⟩
    obtain ⟨c, hc, heq⟩ := List.mem_map.mp hmem
    rcases Base64.mem_encode hc with rfl | ⟨n, hn, rfl⟩
    · cases heq
    · exact (hbrace n hn).2 heq

theorem dumps_head? (sep : JsonText.Separators) (fields : List (String × JsonValue F)) :
    (JsonText.dumps py.floats sep (.dict fields)).toList.head? = some '\x7b' := by
  rw [JsonText.dumps, String.toList_ofList]
  cases fields <;> rfl

theorem envelopeBytes_ne (fields : List (String × JsonValue F)) :
    envelopeBytes py (.dict fields) ≠ [] := by
  intro hnil
  have htext := Text.utf8Decode_utf8Bytes (JsonText.dumps py.floats .compact (.dict fields))
  rw [← envelopeBytes, hnil] at htext
  have hempty : "" = JsonText.dumps py.floats .compact (.dict fields) := Option.some.inj htext
  have hhead : (JsonText.dumps py.floats .compact (.dict fields)).toList.head? = some '\x7b' :=
    dumps_head? .compact fields
  rw [← hempty] at hhead
  cases hhead

/-- **The envelope is read** from every form of a licence. -/
theorem decodeLicenseText_form (hform : IsForm py (.dict fields) form) :
    decodeLicenseText py form = .ok (.dict fields) := by
  rcases hform with ⟨s, n, hs, hn, heq⟩ | ⟨sep, hstrip⟩
  · obtain ⟨hlength, hdecode, hbrace⟩ := of_encode hs
    set w := form.toList.filter fun c => !Text.isSpace c with hw
    have hpad : Base64.pad w = s := Base64.pad_of_append hlength heq hn
    have hfilter := Text.filter_strip form
    rw [← hw] at hfilter
    have hcompact : compact (Text.strip form) = w := by
      rw [compact, Text.flatMap_words, hfilter]
    have hne : w ≠ [] := by
      intro hnil
      rw [hnil, List.nil_append] at heq
      rw [heq, List.length_replicate] at hlength
      obtain rfl : n = 0 := by omega
      rw [heq] at hdecode
      exact envelopeBytes_ne fields (Option.some.inj hdecode).symm
    have hstrip : Text.strip form ≠ "" := fun hempty => by
      rw [hempty] at hfilter
      exact hne hfilter.symm
    have hhead : (Text.strip form).toList.head? ≠ some '\x7b' := fun hhead => by
      have hmem : '\x7b' ∈ w := by
        rw [← hfilter, List.mem_filter]
        exact ⟨List.mem_of_mem_head? hhead, by decide⟩
      exact hbrace (heq ▸ List.mem_append_left _ hmem)
    have htext : (Base64.decodeAny (Base64.pad (compact (Text.strip form)))).bind Text.utf8Decode =
        some (JsonText.dumps py.floats .compact (.dict fields)) := by
      rw [hcompact, hpad, hdecode]
      exact Text.utf8Decode_utf8Bytes _
    simp only [decodeLicenseText, hstrip, hhead, htext, if_false, JsonText.loads_dumps]
  · have hhead : (JsonText.dumps py.floats sep (.dict fields)).toList.head? = some '\x7b' :=
      dumps_head? sep fields
    have hne : JsonText.dumps py.floats sep (.dict fields) ≠ "" := fun hempty => by
      rw [hempty] at hhead
      cases hhead
    simp only [decodeLicenseText, hstrip, hne, hhead, if_false, if_true, JsonText.loads_dumps]

end Forms

end Nodeglow.Licensing
