import Nodeglow.Foundation.Text

/-!
# Authorisation of agent updates

A downloaded agent binary whose SHA-256 matches the announced hash is applied only after
`authorizeUpdate` has accepted it. A release signature made by a compiled-in key always suffices;
a signature by the operator's local key and, weaker still, the bare hash suffice only in some trust
modes. The server relays signatures and hashes and chooses all of them.

Ed25519 strict verification, the decoding of public keys and SHA-256 are given functions
(`Crypto`). The release key signs the text of `releaseMessage`, which names the platform and the
hash of the binary.

## Main results

* `releaseSigned_of_releaseOnly` — in the strictest mode only release-signed binaries pass.
* `signed_of_ne_standard` — outside the standard mode no binary passes on its hash alone.

Source: `agent/src/updater.rs`, lines 39–237; `agent/src/release_keys.rs`.
-/

namespace Nodeglow.Updater

/-- The cryptographic functions the updater uses, for public keys of type `K`. -/
structure Crypto (K : Type) where
  /-- The Ed25519 public key that 32 bytes encode. -/
  fromBytes : List UInt8 → Option K
  isWeak : K → Bool
  /-- Strict verification of a message against a signature of 64 bytes. -/
  verifyStrict : K → List UInt8 → List UInt8 → Bool
  sha256 : List UInt8 → List UInt8

/-- Why an update is refused, or why there is none. -/
inductive UpdateError
  | invalidHex
  | wrongLength
  | invalidPublicKey
  | weakKey
  | verificationFailed
  /-- The named release key is not trusted by this agent. -/
  | untrustedKey (keyId : String)
  | noReleaseSignature
  /-- `update_public_key` is configured, but the update has no signature for it. -/
  | noLocalSignature
  /-- A probe never applies an unsigned update. -/
  | unsigned
  | invalidVersionHash
  | hashMismatch
  /-- A request or a file operation failed. -/
  | io
  deriving DecidableEq, Repr

/-- Domain separation for the release signature. -/
def releaseMessagePrefix : String := "nodeglow-agent-binary:v1"

/-- The exact message the release key signs. -/
def releaseMessage (platform sha256Hex : String) : String :=
  releaseMessagePrefix ++ ":" ++ platform ++ ":" ++ Text.asciiLower sha256Hex

/-- A release public key this agent trusts. -/
structure TrustedKey (K : Type) where
  id : String
  key : K

variable {K : Type} (C : Crypto K)

def sha256Hex (data : List UInt8) : String := Text.hexEncode (C.sha256 data)

/-- Key id of a raw public key: the first 8 bytes of its SHA-256. -/
def keyId (publicKey : List UInt8) : String := Text.hexEncode ((C.sha256 publicKey).take 8)

/-- Parse a list of hex public keys; entries that are no valid, non-weak key are skipped. -/
def parseReleaseKeys (list : List String) : List (TrustedKey K) :=
  list.filterMap fun entry => do
    let bytes ← Text.hexDecode (Text.trim entry)
    if bytes.length ≠ 32 then none
    else
      let key ← C.fromBytes bytes
      if C.isWeak key then none else some ⟨keyId C bytes, key⟩

/-- A text that is there and not blank, trimmed. -/
def nonempty (v : Option String) : Option String :=
  (v.map Text.trim).filter fun s => !s.isEmpty

def decodeSignature (signatureHex : String) : Except UpdateError (List UInt8) :=
  match Text.hexDecode (Text.trim signatureHex) with
  | none => .error .invalidHex
  | some bytes => if bytes.length = 64 then .ok bytes else .error .wrongLength

/-- Verify the signature of the server-held key over the raw binary with a hex public key from the
local config. -/
def verifySignature (publicKeyHex signatureHex : String) (data : List UInt8) :
    Except UpdateError Unit :=
  match Text.hexDecode (Text.trim publicKeyHex) with
  | none => .error .invalidHex
  | some keyBytes =>
      if keyBytes.length ≠ 32 then .error .wrongLength
      else
        match C.fromBytes keyBytes with
        | none => .error .invalidPublicKey
        | some key =>
            if C.isWeak key then .error .weakKey
            else do
              let signature ← decodeSignature signatureHex
              if C.verifyStrict key data signature then .ok () else .error .verificationFailed

/-- Verify a release signature over `data` for `platform` with the key named by `kid`. -/
def verifyReleaseSignature (keys : List (TrustedKey K)) (kid signatureHex platform : String)
    (data : List UInt8) : Except UpdateError String :=
  let kid := Text.trim kid
  match keys.find? fun k => Text.eqIgnoreAsciiCase k.id kid with
  | none => .error (.untrustedKey kid)
  | some key => do
      let signature ← decodeSignature signatureHex
      let message := releaseMessage platform (sha256Hex C data)
      if C.verifyStrict key.key (Text.utf8Bytes message) signature then .ok key.id
      else .error .verificationFailed

inductive TrustMode
  /-- Release signature only. -/
  | releaseOnly
  /-- Release signature or the local key; never the hash alone. -/
  | probe
  /-- Release signature, the local key, or, without a local key, the hash alone. -/
  | standard
  deriving DecidableEq, Repr

/-- Why an update was accepted. -/
inductive Authorization
  | release (keyId : String)
  | localKey
  | hashOnly
  deriving DecidableEq, Repr

/-- What the server offers for an update, as far as trust is concerned. -/
structure UpdateOffer where
  platform : String
  releaseSignature : Option String
  releaseKeyId : Option String
  legacySignature : Option String
  deriving DecidableEq, Repr

/-- The last part of `authorizeUpdate`, the paths without a release signature. -/
def authorizeLocally (mode : TrustMode) (localKeyHex : String) (offer : UpdateOffer)
    (data : List UInt8) : Except UpdateError Authorization :=
  let localKey := Text.trim localKeyHex
  if !localKey.isEmpty then
    match nonempty offer.legacySignature with
    | some sig => (verifySignature C localKey sig data).map fun _ => .localKey
    | none => .error .noLocalSignature
  else if mode = .standard then .ok .hashOnly
  else .error .unsigned

/-- Decide whether the downloaded `data`, whose hash is already checked, may be applied. -/
def authorizeUpdate (mode : TrustMode) (keys : List (TrustedKey K)) (localKeyHex : String)
    (offer : UpdateOffer) (data : List UInt8) : Except UpdateError Authorization :=
  match nonempty offer.releaseSignature with
  | some sig =>
      let kid := (nonempty offer.releaseKeyId).getD ""
      if keys.any fun k => Text.eqIgnoreAsciiCase k.id kid then
        -- a signature by a trusted key must verify: a failure never falls back to a weaker path
        (verifyReleaseSignature C keys kid sig offer.platform data).map .release
      else if mode = .releaseOnly then .error (.untrustedKey kid)
      else authorizeLocally C mode localKeyHex offer data
  | none =>
      if mode = .releaseOnly then .error .noReleaseSignature
      else authorizeLocally C mode localKeyHex offer data

/-! ### What an accepted update carries -/

/-- The offer carries a release signature of exactly these bytes for its platform, made by one of
the keys. -/
def ReleaseSigned (keys : List (TrustedKey K)) (offer : UpdateOffer) (data : List UInt8) : Prop :=
  ∃ key ∈ keys, ∃ sig bytes, nonempty offer.releaseSignature = some sig ∧
    decodeSignature sig = .ok bytes ∧
    C.verifyStrict key.key (Text.utf8Bytes (releaseMessage offer.platform (sha256Hex C data))) bytes
      = true

/-- The offer carries a signature of exactly these bytes by the key of the local config. -/
def LocallySigned (localKeyHex : String) (offer : UpdateOffer) (data : List UInt8) : Prop :=
  ∃ keyBytes key sig bytes, Text.hexDecode (Text.trim (Text.trim localKeyHex)) = some keyBytes ∧
    C.fromBytes keyBytes = some key ∧ C.isWeak key = false ∧
    nonempty offer.legacySignature = some sig ∧ decodeSignature sig = .ok bytes ∧
    C.verifyStrict key data bytes = true

variable {C}

theorem verifyReleaseSignature_ok {keys : List (TrustedKey K)} {kid sig platform id : String}
    {data : List UInt8} (h : verifyReleaseSignature C keys kid sig platform data = .ok id) :
    ∃ key ∈ keys, ∃ bytes, decodeSignature sig = .ok bytes ∧
      C.verifyStrict key.key (Text.utf8Bytes (releaseMessage platform (sha256Hex C data))) bytes
        = true := by
  unfold verifyReleaseSignature at h
  dsimp only at h
  split at h
  · exact absurd h (by simp)
  · next key hfind =>
    cases hsig : decodeSignature sig with
    | error e => simp [hsig, bind, Except.bind] at h
    | ok bytes =>
      refine ⟨key, List.mem_of_find?_eq_some hfind, bytes, rfl, ?_⟩
      by_contra hver
      simp [hsig, hver, bind, Except.bind] at h

theorem verifySignature_ok {publicKeyHex sig : String} {data : List UInt8}
    (h : verifySignature C publicKeyHex sig data = .ok ()) :
    ∃ keyBytes key bytes, Text.hexDecode (Text.trim publicKeyHex) = some keyBytes ∧
      C.fromBytes keyBytes = some key ∧ C.isWeak key = false ∧
      decodeSignature sig = .ok bytes ∧ C.verifyStrict key data bytes = true := by
  unfold verifySignature at h
  split at h
  · exact absurd h (by simp)
  · next keyBytes hkey =>
    split_ifs at h
    split at h
    · exact absurd h (by simp)
    · next key hfrom =>
      split_ifs at h with hweak
      cases hsig : decodeSignature sig with
      | error e => simp [hsig, bind, Except.bind] at h
      | ok bytes =>
        refine ⟨keyBytes, key, bytes, hkey, hfrom, by simpa using hweak, rfl, ?_⟩
        by_contra hver
        simp [hsig, hver, bind, Except.bind] at h

theorem hexEncode_ne_empty {bytes : List UInt8} (h : bytes ≠ []) : Text.hexEncode bytes ≠ "" := by
  intro heq
  have hdecode := Text.hexDecode_hexEncode bytes
  rw [heq] at hdecode
  exact h (Option.some.inj hdecode).symm

theorem nonempty_hexEncode {bytes : List UInt8} (h : bytes ≠ []) :
    nonempty (some (Text.hexEncode bytes)) = some (Text.hexEncode bytes) := by
  simp [nonempty, hexEncode_ne_empty h]

theorem decodeSignature_hexEncode {bytes : List UInt8} (h : bytes.length = 64) :
    decodeSignature (Text.hexEncode bytes) = .ok bytes := by
  simp [decodeSignature, h]

section Authorize

variable {mode : TrustMode} {keys : List (TrustedKey K)} {localKeyHex : String}
  {offer : UpdateOffer} {data : List UInt8} {a : Authorization}

/-- A release signature by a trusted key suffices in every mode. -/
theorem authorizeUpdate_of_release {key : TrustedKey K} {sig kid : String} {bytes : List UInt8}
    (hsig : nonempty offer.releaseSignature = some sig)
    (hkid : nonempty offer.releaseKeyId = some kid) (htrim : Text.trim kid = kid)
    (hfind : keys.find? (fun k => Text.eqIgnoreAsciiCase k.id kid) = some key)
    (hdec : decodeSignature sig = .ok bytes)
    (hver : C.verifyStrict key.key
      (Text.utf8Bytes (releaseMessage offer.platform (sha256Hex C data))) bytes = true) :
    authorizeUpdate C mode keys localKeyHex offer data = .ok (.release key.id) := by
  have hid : Text.eqIgnoreAsciiCase key.id kid = true := by simpa using List.find?_some hfind
  have hany : (keys.any fun k => Text.eqIgnoreAsciiCase k.id kid) = true :=
    List.any_eq_true.mpr ⟨key, List.mem_of_find?_eq_some hfind, hid⟩
  have hrelease : verifyReleaseSignature C keys kid sig offer.platform data = .ok key.id := by
    simp [verifyReleaseSignature, htrim, hfind, hdec, hver, bind, Except.bind]
  simp only [authorizeUpdate, hsig, hkid, Option.getD_some, hany, if_true, hrelease, Except.map]

/-- Without a release signature, one by the local key suffices outside of the strictest mode. -/
theorem authorizeUpdate_of_local {localKey sig : String} {keyBytes bytes : List UInt8} {key : K}
    (hmode : mode ≠ .releaseOnly) (hrelease : nonempty offer.releaseSignature = none)
    (hlocal : Text.trim localKeyHex = localKey) (htrim : Text.trim localKey = localKey)
    (hne : localKey ≠ "") (hkey : Text.hexDecode localKey = some keyBytes)
    (hlength : keyBytes.length = 32) (hfrom : C.fromBytes keyBytes = some key)
    (hweak : C.isWeak key = false) (hsig : nonempty offer.legacySignature = some sig)
    (hdec : decodeSignature sig = .ok bytes) (hver : C.verifyStrict key data bytes = true) :
    authorizeUpdate C mode keys localKeyHex offer data = .ok .localKey := by
  have hsignature : verifySignature C localKey sig data = .ok () := by
    simp [verifySignature, htrim, hkey, hlength, hfrom, hweak, hdec, hver, bind, Except.bind]
  simp [authorizeUpdate, authorizeLocally, hrelease, hmode, hlocal, hne, hsig, hsignature,
    Except.map]

theorem authorizeLocally_cases (h : authorizeLocally C mode localKeyHex offer data = .ok a) :
    (a = .localKey ∧ LocallySigned C localKeyHex offer data) ∨
      (mode = .standard ∧ a = .hashOnly) := by
  unfold authorizeLocally at h
  dsimp only at h
  split_ifs at h with hempty hstd
  · split at h
    · next sig hsig =>
      cases hver : verifySignature C (Text.trim localKeyHex) sig data with
      | error e => simp [hver, Except.map] at h
      | ok u =>
        obtain ⟨keyBytes, key, bytes, hkey, hfrom, hweak, hdec, hstrict⟩ := verifySignature_ok hver
        simp only [hver, Except.map, Except.ok.injEq] at h
        exact Or.inl ⟨h.symm, keyBytes, key, sig, bytes, hkey, hfrom, hweak, hsig, hdec, hstrict⟩
    · exact absurd h (by simp)
  · exact Or.inr ⟨hstd, (Except.ok.inj h).symm⟩

/-- An accepted update is release-signed, or signed with the local key outside of the strictest
mode, or accepted on its hash in the standard mode. -/
theorem authorizeUpdate_cases (h : authorizeUpdate C mode keys localKeyHex offer data = .ok a) :
    ((∃ id, a = .release id) ∧ ReleaseSigned C keys offer data) ∨
      (mode ≠ .releaseOnly ∧ a = .localKey ∧ LocallySigned C localKeyHex offer data) ∨
      (mode = .standard ∧ a = .hashOnly) := by
  have hlocal (hmode : mode ≠ .releaseOnly)
      (h : authorizeLocally C mode localKeyHex offer data = .ok a) :
      (mode ≠ .releaseOnly ∧ a = .localKey ∧ LocallySigned C localKeyHex offer data) ∨
        (mode = .standard ∧ a = .hashOnly) :=
    (authorizeLocally_cases h).imp (fun hl => ⟨hmode, hl⟩) id
  unfold authorizeUpdate at h
  dsimp only at h
  split at h
  · next sig hsig =>
    split_ifs at h with hknown hmode
    · cases hver : verifyReleaseSignature C keys ((nonempty offer.releaseKeyId).getD "") sig
          offer.platform data with
      | error e => simp [hver, Except.map] at h
      | ok id =>
        obtain ⟨key, hkey, bytes, hdec, hstrict⟩ := verifyReleaseSignature_ok hver
        simp only [hver, Except.map, Except.ok.injEq] at h
        exact Or.inl ⟨⟨id, h.symm⟩, key, hkey, sig, bytes, hsig, hdec, hstrict⟩
    · exact Or.inr (hlocal hmode h)
  · split_ifs at h with hmode
    exact Or.inr (hlocal hmode h)

theorem releaseSigned_of_releaseOnly
    (h : authorizeUpdate C .releaseOnly keys localKeyHex offer data = .ok a) :
    ReleaseSigned C keys offer data := by
  rcases authorizeUpdate_cases h with ⟨-, hrel⟩ | ⟨hmode, -⟩ | ⟨hmode, -⟩
  · exact hrel
  · exact absurd rfl hmode
  · exact absurd hmode (by decide)

theorem signed_of_ne_standard (hmode : mode ≠ .standard)
    (h : authorizeUpdate C mode keys localKeyHex offer data = .ok a) :
    ReleaseSigned C keys offer data ∨ LocallySigned C localKeyHex offer data := by
  rcases authorizeUpdate_cases h with ⟨-, hrel⟩ | ⟨-, -, hloc⟩ | ⟨hstd, -⟩
  · exact Or.inl hrel
  · exact Or.inr hloc
  · exact absurd hstd hmode

theorem mode_eq_standard_of_hashOnly
    (h : authorizeUpdate C mode keys localKeyHex offer data = .ok .hashOnly) :
    mode = .standard := by
  rcases authorizeUpdate_cases h with ⟨⟨id, hid⟩, -⟩ | ⟨-, hloc, -⟩ | ⟨hstd, -⟩
  · exact absurd hid (by simp)
  · exact absurd hloc (by simp)
  · exact hstd

end Authorize

end Nodeglow.Updater
