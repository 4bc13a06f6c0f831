import Mathlib.Algebra.Order.Field.Rat
import Mathlib.Data.List.Sort
import Nodeglow.Foundation.Table

/-!
# The ciphers of a tenant

A tenant's secrets are encrypted under data keys of its own. A stored value names its key,
`v2:<key id>:<token>`; a value of an older release is a token under the installation's key, and a
secret setting of a very old one may be plain text. A tenant has one active key for new values, and
its retired keys stay readable.

Fernet and the installation's key are given (`Fernet`). A set of keys is read from the key rows that
a transaction sees; more keys never change what a value decrypts to (`decrypt_mono`).

## Main results

* `parseV2_sealed`, `decrypt_of_encrypt` — what is written can be read.
* `decrypt_mono`, `Secret.plaintext_mono` — under more keys.

Source: `backend/services/tenant_keys.py`, lines 69–197, 224–381, 461–499 and 517–541.
-/

namespace Nodeglow.Secrets

/-! ### Stored values -/

/-- The characters of a key id. -/
def isKeyIdChar (c : Char) : Bool := c.isAlphanum || c = '_' || c = '-'

/-- `_KEY_ID_RE`; the end of a Python pattern also matches before a last line feed. -/
def matchesKeyId (s : List Char) : Bool :=
  let body := if s.getLast? = some '\n' then s.dropLast else s
  1 ≤ body.length && body.length ≤ 32 && body.all isKeyIdChar

/-- The name of a data key. -/
structure KeyId where
  text : String
  valid : matchesKeyId text.toList
  deriving DecidableEq

/-- `FORMAT_PREFIX`. -/
def formatPrefix : String := "v2:"

/-- `_FERNET_PREFIX`. -/
def fernetPrefix : String := "gAAAAA"

def startsWith (value start : String) : Bool := start.toList.isPrefixOf value.toList

/-- `is_v2`. -/
def isV2 (value : String) : Bool := value ≠ "" && startsWith value formatPrefix

inductive KeyError
  /-- `TenantKeyError`. -/
  | noKey
  /-- `TenantKeyDestroyed`. -/
  | destroyed
  /-- `TenantKeyUnavailable`. -/
  | unavailable
  /-- A value that does not decrypt under the installation's key. -/
  | invalidToken
  deriving DecidableEq, Repr

/-- `parse_v2`. -/
def parseV2 (value : String) : Except KeyError (KeyId × String) :=
  let rest := value.toList.drop formatPrefix.toList.length
  let keyId := rest.takeWhile (· ≠ ':')
  match rest.dropWhile (· ≠ ':') with
  | [] => .error .unavailable
  | _ :: token =>
      if h : matchesKeyId (String.ofList keyId).toList ∧ token ≠ [] then
        .ok (⟨String.ofList keyId, h.1⟩, String.ofList token)
      else .error .unavailable

/-- `seal`, from the token. -/
def sealed (keyId : KeyId) (token : String) : String :=
  formatPrefix ++ keyId.text ++ ":" ++ token

theorem ne_colon_of_matchesKeyId {s : List Char} (h : matchesKeyId s) : ∀ c ∈ s, c ≠ ':' := by
  intro c hc heq
  subst heq
  simp only [matchesKeyId, Bool.and_eq_true, List.all_eq_true] at h
  have hbody := h.2
  split_ifs at hbody with hlast
  · obtain ⟨body, rfl⟩ := List.getLast?_eq_some_iff.mp hlast
    rw [List.dropLast_concat] at hbody
    rcases List.mem_append.mp hc with hc | hc
    · exact absurd (hbody ':' hc) (by decide)
    · exact absurd (List.mem_singleton.mp hc) (by decide)
  · exact absurd (hbody ':' hc) (by decide)

/-- **The format can be read back.** -/
theorem parseV2_sealed (keyId : KeyId) {token : String} (h : token ≠ "") :
    parseV2 (sealed keyId token) = .ok (keyId, token) := by
  have hcolon := ne_colon_of_matchesKeyId keyId.valid
  have hrest : (sealed keyId token).toList.drop formatPrefix.toList.length =
      keyId.text.toList ++ ':' :: token.toList := by
    simp [sealed, String.toList_append, List.append_assoc]
  have htake : (keyId.text.toList ++ ':' :: token.toList).takeWhile (· ≠ ':') =
      keyId.text.toList := by
    rw [List.takeWhile_append_of_pos fun c hc => by simpa using hcolon c hc]
    simp
  have hdrop : (keyId.text.toList ++ ':' :: token.toList).dropWhile (· ≠ ':') =
      ':' :: token.toList := by
    rw [List.dropWhile_append_of_pos fun c hc => by simpa using hcolon c hc]
    simp
  have htoken : token.toList ≠ [] := fun hnil => h (String.toList_eq_nil_iff.mp hnil)
  simp only [parseV2, hrest, htake, hdrop]
  rw [dif_pos ⟨by simpa using keyId.valid, htoken⟩]
  simp

theorem isV2_sealed (keyId : KeyId) (token : String) : isV2 (sealed keyId token) := by
  have hne : sealed keyId token ≠ "" := by
    intro heq
    have hlen := congrArg (fun s : String => s.toList.length) heq
    simp [sealed, formatPrefix, String.toList_append] at hlen
  rw [isV2, Bool.and_eq_true, decide_eq_true_eq]
  refine ⟨hne, ?_⟩
  simp [startsWith, sealed, String.toList_append, List.append_assoc]

/-! ### Keys -/

/-- What is given: Fernet under a data key, with what it draws for a token, and the installation's
key. -/
structure Fernet (K : Type) where
  encrypt : K → ℕ → String → String
  decrypt : K → String → Option String
  /-- `legacy_decrypt`. -/
  legacyDecrypt : String → Option String
  decrypt_encrypt : ∀ key n plaintext, decrypt key (encrypt key n plaintext) = some plaintext
  encrypt_ne : ∀ key n plaintext, encrypt key n plaintext ≠ ""

/-- The wrapped data key of a key row, as it unwraps. -/
inductive Wrapped (K : Type)
  | dek (key : K)
  /-- It does not unwrap with this installation's key. -/
  | broken
  | destroyed
  deriving DecidableEq, Repr

structure KeyRow (K : Type) where
  wrapped : Wrapped K
  createdAt : ℚ
  retired : Bool
  deriving DecidableEq, Repr

/-- `_KeySet`: the keys by their names, the ones that do not unwrap included. -/
structure KeySet (K : Type) where
  find : KeyId → Option (Wrapped K)
  active : Option KeyId
  destroyed : Bool

namespace KeySet

variable {K : Type} [DecidableEq K]

/-- The order of the key rows: by their time, then by their names. -/
def orderedBefore (rows : KeyId → Option (KeyRow K)) (i j : KeyId) : Prop :=
  let a := ((rows i).map KeyRow.createdAt).getD 0
  let b := ((rows j).map KeyRow.createdAt).getD 0
  a < b ∨ a = b ∧ i.text ≤ j.text

instance (rows : KeyId → Option (KeyRow K)) : DecidableRel (orderedBefore rows) :=
  fun _ _ => inferInstanceAs (Decidable (_ ∨ _))

/-- `_load`, from the key rows that a transaction sees. -/
def load (ids : List KeyId) (rows : KeyId → Option (KeyRow K)) : KeySet K :=
  let ordered := ids.insertionSort (orderedBefore rows)
  let active := (ordered.filter fun i =>
    (rows i).any fun row => row.wrapped ≠ .destroyed && !row.retired).getLast?
  { find := fun i => (rows i).map KeyRow.wrapped
    active := active
    destroyed := active.isNone &&
      ids.any fun i => (rows i).any fun row => row.wrapped = .destroyed }

/-- The set with a new active key: what `_create` makes of it. -/
def withNew (ks : KeySet K) (keyId : KeyId) (key : K) : KeySet K where
  find i := if i = keyId then some (.dek key) else ks.find i
  active := some keyId
  destroyed := false

end KeySet

section Cipher

variable {K : Type} (F : Fernet K)

/-- `TenantCipher.encrypt`. -/
def encrypt (ks : KeySet K) (n : ℕ) (plaintext : String) : Except KeyError String :=
  match ks.active with
  | none => if ks.destroyed then .error .destroyed else .error .noKey
  | some keyId =>
      match ks.find keyId with
      | some (.dek key) => .ok (sealed keyId (F.encrypt key n plaintext))
      | _ => .error .unavailable

/-- `TenantCipher.decrypt`. -/
def decrypt (find : KeyId → Option (Wrapped K)) (stored : String) : Except KeyError String :=
  if isV2 stored then
    match parseV2 stored with
    | .error error => .error error
    | .ok (keyId, token) =>
        match find keyId with
        | some (.dek key) =>
            match F.decrypt key token with
            | some plaintext => .ok plaintext
            | none => .error .unavailable
        | some .destroyed => .error .destroyed
        | some .broken | none => .error .unavailable
  else
    match F.legacyDecrypt stored with
    | some plaintext => .ok plaintext
    | none => .error .invalidToken

/-- The second set of keys holds all keys of the first that unwrap. -/
def Extends (f g : KeyId → Option (Wrapped K)) : Prop :=
  ∀ keyId key, f keyId = some (.dek key) → g keyId = some (.dek key)

theorem Extends.refl (f : KeyId → Option (Wrapped K)) : Extends f f := fun _ _ h => h

theorem Extends.trans {f g h : KeyId → Option (Wrapped K)} (hfg : Extends f g)
    (hgh : Extends g h) : Extends f h :=
  fun keyId key hf => hgh keyId key (hfg keyId key hf)

/-- A value decrypts alike under more keys. -/
theorem decrypt_mono {f g : KeyId → Option (Wrapped K)} (hfg : Extends f g)
    {stored plaintext : String} (h : decrypt F f stored = .ok plaintext) :
    decrypt F g stored = .ok plaintext := by
  unfold decrypt at h ⊢
  split_ifs at h ⊢ with hv2
  · split at h
    · cases h
    · next keyId token _ =>
      split at h
      · next key hfind =>
        simp only [hfg keyId key hfind]
        exact h
      · cases h
      · cases h
      · cases h
  · exact h

/-- **What is encrypted can be decrypted** under the keys it was encrypted with, and more. -/
theorem decrypt_of_encrypt {ks : KeySet K} {n : ℕ} {plaintext stored : String}
    (h : encrypt F ks n plaintext = .ok stored) {g : KeyId → Option (Wrapped K)}
    (hg : Extends ks.find g) : decrypt F g stored = .ok plaintext := by
  unfold encrypt at h
  split at h
  · split_ifs at h
  · next keyId _ =>
    split at h
    · next key hfind =>
      obtain rfl := Except.ok.inj h
      unfold decrypt
      rw [if_pos (isV2_sealed ..), parseV2_sealed keyId (F.encrypt_ne key n plaintext)]
      simp only [hg keyId key hfind, F.decrypt_encrypt]
    · cases h

end Cipher

/-! ### Secrets -/

/-- Where a secret is stored. -/
inductive SecretId
  | integrationConfig (id : ℤ)
  | credential (id : ℤ)
  | tenantSetting (key : String)
  deriving DecidableEq, Repr

/-- The secret column of a row, and the flag that the settings have. -/
structure Secret where
  value : String
  encrypted : Bool
  deriving DecidableEq, Repr

/-- `_is_settings_plaintext_ok`. -/
def SecretId.plaintextOk (i : SecretId) (s : Secret) : Bool :=
  match i with
  | .tenantSetting _ => !s.encrypted
  | _ => false

namespace Secret

variable {K : Type} (F : Fernet K) (find : KeyId → Option (Wrapped K)) (i : SecretId) (s : Secret)

/-- The plain text that `_reencrypt` finds in a value, if it finds one. -/
def plaintext : Option String :=
  match decrypt F find s.value with
  | .ok plaintext => some plaintext
  | .error _ =>
      if !isV2 s.value && i.plaintextOk s && !startsWith s.value fernetPrefix then some s.value
      else none

/-- What `_reencrypt` does with one value. -/
inductive Outcome
  | unchanged
  | converted (value : String)
  | failed
  deriving DecidableEq, Repr

/-- The key that a value names; it raises for a value that should name one and does not. -/
def namedKey : Except KeyError (Option KeyId) :=
  if isV2 s.value then (parseV2 s.value).map fun p => some p.1 else .ok none

/-- The body of the loop of `_reencrypt`, for a rotation. -/
def reencrypt (cipher : KeySet K) (n : ℕ) : Except KeyError Outcome :=
  if s.value = "" then .ok .unchanged
  else
    match s.namedKey with
    | .error error => .error error
    | .ok named =>
        if named.isSome ∧ named = cipher.active then .ok .unchanged
        else
          match s.plaintext F find i with
          | none => .ok .failed
          | some plaintext => (encrypt F cipher n plaintext).map .converted

variable {F find i s}

/-- The plain text is the same under more keys. -/
theorem plaintext_mono {g : KeyId → Option (Wrapped K)} (hg : Extends find g) {p : String}
    (h : s.plaintext F find i = some p) : s.plaintext F g i = some p := by
  unfold plaintext at h ⊢
  split at h
  · next q hq =>
    rw [decrypt_mono F hg hq]
    exact h
  · next error herror =>
    split_ifs at h with hplain
    -- a value that names no key does not depend on the keys
    have hv2 : isV2 s.value = false := by simp_all
    have hsame : decrypt F g s.value = .error error := by
      rw [← herror]
      simp [decrypt, hv2]
    rw [hsame]
    simpa [hplain] using h

/-- A converted value holds the plain text that was found. -/
theorem exists_plaintext_of_converted {cipher : KeySet K} {n : ℕ} {value : String}
    (h : s.reencrypt F find i cipher n = .ok (.converted value)) :
    ∃ p, s.plaintext F find i = some p ∧ encrypt F cipher n p = .ok value := by
  unfold reencrypt at h
  split_ifs at h
  · simp at h
  · split at h
    · cases h
    · split_ifs at h
      · simp at h
      · split at h
        · simp at h
        · next p hp =>
          refine ⟨p, hp, ?_⟩
          cases hencrypt : encrypt F cipher n p with
          | error error => simp [hencrypt, Except.map] at h
          | ok value' => simpa [hencrypt, Except.map] using h

end Secret

end Nodeglow.Secrets
