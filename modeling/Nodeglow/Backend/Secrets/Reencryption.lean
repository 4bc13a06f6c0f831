import Nodeglow.Backend.Secrets.KeyStore

/-!
# Encrypting a tenant's secrets again

A rotation gives a tenant a new active key and encrypts every value of the tenant under it; the
re-encryption of legacy values moves those that are still under the installation's key, and the
secret settings that are still plain text, to the tenant's key; a destroy moves them as well and
then destroys the keys. Each runs in a transaction of its caller: where it raises, nothing is
changed.

The loop passes over a value that it cannot decrypt and counts it. But a rotation asks a `v2:` value
for the key that it names before it tries to decrypt it, and there nothing is caught: one value
without a key id makes every rotation raise (`Maintenance.rotate_truncated`). Such a value is no
obstacle to a destroy, which looks only at values that are not `v2:` values. What can stop a destroy
is an active key that does not unwrap, together with a legacy value that does decrypt
(`Maintenance.completes_iff`).

## Main results

* `reencryptRows_spec`, `exists_reencryptRows_iff` — the loop.

Source: `backend/services/tenant_keys.py`, lines 277–327, 400–420, 468–562 and 606–683.
-/

namespace Nodeglow.Secrets

variable {K : Type}

/-! ### Values -/

/-- The name, the key and the time of a new key row. -/
structure Draw (K : Type) where
  keyId : KeyId
  key : K
  now : ℚ

/-- The row as it is after the body of the loop. -/
def Secret.Outcome.apply (s : Secret) : Secret.Outcome → Secret
  | .converted value => { s with value := value }
  | _ => s

/-- The body of the loop of `_reencrypt`. -/
def Secret.reencryptAs (F : Fernet K) (find : KeyId → Option (Wrapped K)) (i : SecretId)
    (s : Secret) (cipher : KeySet K) (onlyLegacy : Bool) (n : ℕ) : Except KeyError Secret.Outcome :=
  if isV2 s.value && onlyLegacy then .ok .unchanged else s.reencrypt F find i cipher n

/-- `ReencryptReport`; the failed values are counted by their table. -/
structure Report where
  keyId : Option KeyId
  converted : ℕ
  unchanged : ℕ
  failed : SecretTable → ℕ
  retired : List KeyId

namespace Report

def start (keyId : Option KeyId) : Report := ⟨keyId, 0, 0, fun _ => 0, []⟩

/-- The report with one more value; a value that failed is counted by `ReencryptReport.fail`. -/
def add (report : Report) (label : SecretTable) : Secret.Outcome → Report
  | .unchanged => { report with unchanged := report.unchanged + 1 }
  | .converted _ => { report with converted := report.converted + 1 }
  | .failed =>
      { report with failed := Function.update report.failed label (report.failed label + 1) }

end Report

section Loop

variable (F : Fernet K) (secretKeys : List String) (cipher old : KeySet K) (onlyLegacy : Bool)
  (n : SecretId → ℕ)

/-- The loop of `_reencrypt` over the rows that `_secret_rows` selects. -/
def reencryptRows (report : Report) :
    List (SecretId × Secret) → Except KeyError (List (SecretId × Secret) × Report)
  | [] => .ok ([], report)
  | (i, s) :: rows =>
      if i.selected secretKeys s then
        match s.reencryptAs F old.find i cipher onlyLegacy (n i) with
        | .error error => .error error
        | .ok outcome =>
            (reencryptRows (report.add i.table outcome) rows).map
              fun r => ((i, outcome.apply s) :: r.1, r.2)
      else (reencryptRows report rows).map fun r => ((i, s) :: r.1, r.2)

end Loop

/-- What the loop makes of one row. -/
def RowOutcome (F : Fernet K) (secretKeys : List String) (cipher old : KeySet K) (onlyLegacy : Bool)
    (n : SecretId → ℕ) (x y : SecretId × Secret) : Prop :=
  y.1 = x.1 ∧ (x.1.selected secretKeys x.2 = false ∧ y.2 = x.2 ∨
    ∃ outcome, x.2.reencryptAs F old.find x.1 cipher onlyLegacy (n x.1) = .ok outcome ∧
      y.2 = outcome.apply x.2)

/-- The loop passes over the value, and counts it. -/
def Secret.fails (F : Fernet K) (find : KeyId → Option (Wrapped K)) (i : SecretId) (s : Secret)
    (onlyLegacy : Bool) : Bool :=
  s.value ≠ "" && !(isV2 s.value && onlyLegacy) && (s.plaintext F find i).isNone

section Values

variable {F : Fernet K} {secretKeys : List String} {cipher old : KeySet K} {onlyLegacy : Bool}
  {n : SecretId → ℕ} {i : SecretId} {s : Secret} {find : KeyId → Option (Wrapped K)} {m : ℕ}

/-- The keys can encrypt. -/
def KeySet.Usable (ks : KeySet K) : Prop :=
  ∃ keyId key, ks.active = some keyId ∧ ks.find keyId = some (.dek key)

theorem KeySet.usable_withNew [DecidableEq K] (ks : KeySet K) (keyId : KeyId) (key : K) :
    (ks.withNew keyId key).Usable :=
  ⟨keyId, key, rfl, if_pos rfl⟩

/-- A value is encrypted if and only if the active key is there. -/
theorem exists_encrypt_iff {ks : KeySet K} {p : String} :
    (∃ value, encrypt F ks m p = .ok value) ↔ ks.Usable := by
  constructor
  · rintro ⟨value, hvalue⟩
    unfold encrypt at hvalue
    split at hvalue
    · split_ifs at hvalue
    · next keyId hactive =>
      split at hvalue
      · next key hfind => exact ⟨keyId, key, hactive, hfind⟩
      · cases hvalue
  · rintro ⟨keyId, key, hactive, hfind⟩
    refine ⟨sealed keyId (F.encrypt key m p), ?_⟩
    unfold encrypt
    simp only [hactive, hfind]

/-- A value that names no key does not depend on the keys. -/
theorem Secret.plaintext_congr (hv2 : isV2 s.value = false) (f g : KeyId → Option (Wrapped K)) :
    s.plaintext F f i = s.plaintext F g i := by
  unfold plaintext decrypt
  simp only [hv2]
  rfl

theorem value_ne_of_isV2 {value : String} (h : isV2 value = true) : value ≠ "" := by
  rintro rfl
  simp [isV2] at h

/-- A value that is not passed over is encrypted, where that is possible. -/
theorem Secret.exists_reencrypt_iff (hvalue : s.value ≠ "") (hnamed : s.namedKey = .ok none) :
    (∃ outcome, s.reencrypt F find i cipher m = .ok outcome) ↔
      ((s.plaintext F find i).isSome → cipher.Usable) := by
  unfold reencrypt
  rw [if_neg hvalue, hnamed]
  cases hplain : s.plaintext F find i with
  | none => simp
  | some p =>
    rw [← exists_encrypt_iff (F := F) (m := m) (p := p)]
    cases hencrypt : encrypt F cipher m p with
    | error error => simp [hencrypt, Except.map]
    | ok value => simp [hencrypt, Except.map]

/-- The body of the loop for legacy values. -/
theorem Secret.exists_reencryptAs_legacy_iff :
    (∃ outcome, s.reencryptAs F find i cipher true m = .ok outcome) ↔
      (s.value ≠ "" → isV2 s.value = false → (s.plaintext F find i).isSome → cipher.Usable) := by
  unfold reencryptAs
  cases hv2 : isV2 s.value with
  | true => simp
  | false =>
    by_cases hvalue : s.value = ""
    · simp [hvalue, reencrypt]
    · have hnamed : s.namedKey = .ok none := by simp [namedKey, hv2]
      have hiff : (∃ outcome, s.reencrypt F find i cipher m = .ok outcome) ↔
          ((s.plaintext F find i).isSome → cipher.Usable) :=
        exists_reencrypt_iff hvalue hnamed
      simpa [hvalue] using hiff

/-- The body of the loop for a rotation: a `v2:` value must name a key. -/
theorem Secret.exists_reencryptAs_iff (hcipher : cipher.Usable) :
    (∃ outcome, s.reencryptAs F find i cipher false m = .ok outcome) ↔
      (isV2 s.value = true → ∃ parsed, parseV2 s.value = .ok parsed) := by
  have hcan (p : String) : ∃ value, encrypt F cipher m p = .ok value :=
    exists_encrypt_iff.mpr hcipher
  unfold reencryptAs
  rw [Bool.and_false, if_neg Bool.false_ne_true]
  cases hv2 : isV2 s.value with
  | false =>
    have hnamed : s.namedKey = .ok none := by simp [namedKey, hv2]
    by_cases hvalue : s.value = ""
    · simp [hvalue, reencrypt]
    · have hiff : (∃ outcome, s.reencrypt F find i cipher m = .ok outcome) ↔
          ((s.plaintext F find i).isSome → cipher.Usable) :=
        exists_reencrypt_iff hvalue hnamed
      simpa using hiff.mpr fun _ => hcipher
  | true =>
    unfold reencrypt
    rw [if_neg (value_ne_of_isV2 hv2)]
    cases hparse : parseV2 s.value with
    | error error => simp [namedKey, hv2, hparse, Except.map]
    | ok parsed =>
      simp only [namedKey, hv2, hparse, Except.map, if_true]
      split_ifs
      · simp
      · cases hplain : s.plaintext F find i with
        | none => simp
        | some p =>
          obtain ⟨value, hvalue⟩ := hcan p
          simp [hvalue]

/-- A value that the body of the loop tries fails if and only if no plain text is found in it. -/
theorem Secret.reencryptAs_eq_failed_iff {outcome : Secret.Outcome}
    (h : s.reencryptAs F find i cipher onlyLegacy m = .ok outcome)
    (hnew : onlyLegacy = false → isV2 s.value = true → ∀ parsed, parseV2 s.value = .ok parsed →
      cipher.active ≠ some parsed.1) :
    outcome = .failed ↔ s.fails F find i onlyLegacy = true := by
  have htried (hnone : s.plaintext F find i = none → .failed = outcome)
      (hsome : ∀ p, s.plaintext F find i = some p →
        (encrypt F cipher m p).map .converted = .ok outcome) :
      outcome = .failed ↔ (s.plaintext F find i).isNone = true := by
    cases hplain : s.plaintext F find i with
    | none => simp [← hnone hplain]
    | some p =>
      have hconverted := hsome p hplain
      cases hencrypt : encrypt F cipher m p with
      | error error => simp [hencrypt, Except.map] at hconverted
      | ok value =>
        obtain rfl : Outcome.converted value = outcome := by
          simpa [hencrypt, Except.map] using hconverted
        simp
  unfold reencryptAs at h
  unfold fails
  cases hv2 : isV2 s.value with
  | false =>
    have hnamed : s.namedKey = .ok none := by simp [namedKey, hv2]
    rw [hv2, Bool.false_and, if_neg Bool.false_ne_true, reencrypt, hnamed] at h
    by_cases hvalue : s.value = ""
    · rw [if_pos hvalue] at h
      cases h
      simp [hvalue]
    · rw [if_neg hvalue] at h
      simpa [hvalue] using htried (fun hp => by simpa [hp] using h)
        fun p hp => by simpa [hp] using h
  | true =>
    have hvalue := value_ne_of_isV2 hv2
    cases onlyLegacy with
    | true =>
      rw [hv2] at h
      cases h
      simp
    | false =>
      rw [hv2, Bool.and_false, if_neg Bool.false_ne_true, reencrypt, if_neg hvalue] at h
      cases hparse : parseV2 s.value with
      | error error => simp [namedKey, hv2, hparse, Except.map] at h
      | ok parsed =>
        have hne : ¬ some parsed.1 = cipher.active := fun heq => hnew rfl hv2 parsed hparse heq.symm
        have hnamed : s.namedKey = .ok (some parsed.1) := by
          simp [namedKey, hv2, hparse, Except.map]
        simp only [hnamed, Option.isSome_some, hne, and_false, if_false] at h
        simpa [hvalue] using htried (fun hp => by simpa [hp] using h)
          fun p hp => by simpa [hp] using h

/-- The loop runs to its end if and only if the body does for every selected row. -/
theorem exists_reencryptRows_iff {report : Report} {rows : List (SecretId × Secret)} :
    (∃ r, reencryptRows F secretKeys cipher old onlyLegacy n report rows = .ok r) ↔
      ∀ x ∈ rows, x.1.selected secretKeys x.2 = true →
        ∃ outcome, x.2.reencryptAs F old.find x.1 cipher onlyLegacy (n x.1) = .ok outcome := by
  induction rows generalizing report with
  | nil => simp [reencryptRows]
  | cons x rows ih =>
    obtain ⟨i, s⟩ := x
    have hrest (report : Report) (y : Secret) :
        (∃ r, (reencryptRows F secretKeys cipher old onlyLegacy n report rows).map
          (fun r => ((i, y) :: r.1, r.2)) = .ok r) ↔
        ∃ r, reencryptRows F secretKeys cipher old onlyLegacy n report rows = .ok r := by
      cases reencryptRows F secretKeys cipher old onlyLegacy n report rows <;> simp [Except.map]
    rw [List.forall_mem_cons]
    unfold reencryptRows
    split_ifs with hselected
    · cases houtcome : s.reencryptAs F old.find i cipher onlyLegacy (n i) with
      | error error => simp [hselected]
      | ok outcome => rw [hrest, ih]; simp [hselected]
    · rw [hrest, ih]
      simp [hselected]

/-- **The loop.** Every row is passed over, or converted; the values that fail are counted. -/
theorem reencryptRows_spec {report report' : Report} {rows rows' : List (SecretId × Secret)}
    (h : reencryptRows F secretKeys cipher old onlyLegacy n report rows = .ok (rows', report')) :
    List.Forall₂ (RowOutcome F secretKeys cipher old onlyLegacy n) rows rows' ∧
      ((onlyLegacy = false → ∀ x ∈ rows, isV2 x.2.value = true → ∀ parsed,
          parseV2 x.2.value = .ok parsed → cipher.active ≠ some parsed.1) →
        ∀ label, report'.failed label = report.failed label + rows.countP fun x =>
          x.1.selected secretKeys x.2 && x.1.table = label &&
            x.2.fails F old.find x.1 onlyLegacy) := by
  induction rows generalizing report rows' with
  | nil =>
    obtain ⟨rfl, rfl⟩ := Prod.mk.inj (Except.ok.inj h)
    exact ⟨.nil, fun _ label => rfl⟩
  | cons x rows ih =>
    obtain ⟨i, s⟩ := x
    have hrest {report₁ : Report} {y : Secret}
        (h : (reencryptRows F secretKeys cipher old onlyLegacy n report₁ rows).map
          (fun r => ((i, y) :: r.1, r.2)) = .ok (rows', report')) :
        ∃ rows₁, rows' = (i, y) :: rows₁ ∧
          reencryptRows F secretKeys cipher old onlyLegacy n report₁ rows =
            .ok (rows₁, report') := by
      cases hr : reencryptRows F secretKeys cipher old onlyLegacy n report₁ rows with
      | error error => simp [hr, Except.map] at h
      | ok r =>
        rw [hr] at h
        obtain ⟨rfl, rfl⟩ := Prod.mk.inj (Except.ok.inj h)
        exact ⟨r.1, rfl, rfl⟩
    unfold reencryptRows at h
    split_ifs at h with hselected
    · cases houtcome : s.reencryptAs F old.find i cipher onlyLegacy (n i) with
      | error error => simp [houtcome] at h
      | ok outcome =>
        rw [houtcome] at h
        obtain ⟨rows₁, rfl, hrows⟩ := hrest h
        obtain ⟨hforall, hcount⟩ := ih hrows
        refine ⟨.cons ⟨rfl, .inr ⟨outcome, houtcome, rfl⟩⟩ hforall, fun hnew label => ?_⟩
        have hfails := Secret.reencryptAs_eq_failed_iff houtcome
          fun ho => hnew ho _ List.mem_cons_self
        rw [hcount (fun ho x hx => hnew ho x (List.mem_cons_of_mem _ hx)) label, List.countP_cons,
          hselected, Bool.true_and]
        cases outcome with
        | failed =>
          rw [hfails.mp rfl]
          by_cases hlabel : i.table = label
          · subst hlabel
            simp [Report.add]
            omega
          · simp [Report.add, hlabel, Ne.symm hlabel]
        | _ =>
          have hnot : s.fails F old.find i onlyLegacy = false := by
            simpa using hfails.not.mp (by simp)
          simp [Report.add, hnot]
    · obtain ⟨rows₁, rfl, hrows⟩ := hrest h
      obtain ⟨hforall, hcount⟩ := ih hrows
      refine ⟨.cons ⟨rfl, .inl ⟨by simpa using hselected, rfl⟩⟩ hforall, fun hnew label => ?_⟩
      rw [hcount (fun ho x hx => hnew ho x (List.mem_cons_of_mem _ hx)) label, List.countP_cons]
      simp [hselected]

end Values

section Rows

variable {F : Fernet K} {secretKeys : List String} {cipher old : KeySet K} {onlyLegacy : Bool}
  {n : SecretId → ℕ} {rows rows' : List (SecretId × Secret)} {i : SecretId} {s : Secret}

/-- A row is found again after the loop. -/
theorem exists_lookup_of_rowOutcome
    (h : List.Forall₂ (RowOutcome F secretKeys cipher old onlyLegacy n) rows rows')
    (hs : rows.lookup i = some s) : ∃ s', rows'.lookup i = some s' ∧
      RowOutcome F secretKeys cipher old onlyLegacy n (i, s) (i, s') := by
  induction h with
  | nil => cases hs
  | @cons x y rows rows' hxy _ ih =>
    obtain ⟨j, s₁⟩ := x
    obtain ⟨j', s₂⟩ := y
    obtain rfl : j' = j := hxy.1
    by_cases hij : i = j'
    · subst hij
      rw [List.lookup_cons_self] at hs ⊢
      exact ⟨s₂, rfl, Option.some.inj hs ▸ hxy⟩
    · have hne : (i == j') = false := by simpa using hij
      rw [List.lookup_cons, hne] at hs ⊢
      exact ih hs

/-- No row is new after the loop. -/
theorem lookup_eq_none_of_rowOutcome
    (h : List.Forall₂ (RowOutcome F secretKeys cipher old onlyLegacy n) rows rows')
    (hs : rows.lookup i = none) : rows'.lookup i = none := by
  induction h with
  | nil => rfl
  | @cons x y rows rows' hxy _ ih =>
    obtain ⟨j, s₁⟩ := x
    obtain ⟨j', s₂⟩ := y
    obtain rfl : j' = j := hxy.1
    have hne : (i == j') = false := by
      by_contra heq
      have hij : i = j' := by simpa using heq
      simp [hij] at hs
    rw [List.lookup_cons, hne] at hs ⊢
    exact ih hs

/-- A row is as it was, or holds the plain text that was found in it, encrypted again. -/
theorem RowOutcome.cases {s' : Secret}
    (h : RowOutcome F secretKeys cipher old onlyLegacy n (i, s) (i, s')) :
    s' = s ∨ ∃ p value, (onlyLegacy = true → isV2 s.value = false) ∧
      s.plaintext F old.find i = some p ∧ encrypt F cipher (n i) p = .ok value ∧
        s' = { s with value := value } := by
  obtain ⟨-, ⟨-, hsame⟩ | ⟨outcome, houtcome, rfl⟩⟩ := h
  · exact .inl hsame
  · cases outcome with
    | converted value =>
      unfold Secret.reencryptAs at houtcome
      split_ifs at houtcome with hpass
      · simp at houtcome
      · obtain ⟨p, hp, hvalue⟩ := Secret.exists_plaintext_of_converted houtcome
        exact .inr ⟨p, value, fun ho => by simpa [ho] using hpass, hp, hvalue, rfl⟩
    | _ => exact .inl rfl

end Rows

/-! ### A tenant -/

/-- The key rows and the secrets of a tenant. -/
structure Tenant (K : Type) where
  keys : List (KeyId × KeyRow K)
  secrets : List (SecretId × Secret)

namespace Tenant

section Model

variable [DecidableEq K] (F : Fernet K) (secretKeys : List String) (t : Tenant K) (draw : Draw K)
  (n : SecretId → ℕ)

/-- What the keys of the tenant unwrap to. -/
def find (i : KeyId) : Option (Wrapped K) := (t.keys.lookup i).map KeyRow.wrapped

/-- `_load`. -/
def load : KeySet K := KeySet.load (t.keys.map Prod.fst) fun i => t.keys.lookup i

/-- `_create`. -/
def create : Tenant K := { t with keys := (draw.keyId, ⟨.dek draw.key, draw.now, false⟩) :: t.keys }

/-- `tenant_cipher`, for a write. -/
def cipher : Except KeyError (KeySet K × Tenant K) :=
  let ks := t.load
  if ks.active = none then
    if ks.destroyed then .error .destroyed
    else .ok (ks.withNew draw.keyId draw.key, t.create draw)
  else .ok (ks, t)

/-- The keys that a rotation retires: all but the destroyed ones. -/
def previousKeys : List KeyId := (t.keys.filter fun x => x.2.live).map Prod.fst

/-- `rotate_tenant_key`. -/
def rotate : Except KeyError (Tenant K × Report) :=
  let ks := t.load
  if ks.active = none ∧ ks.destroyed then .error .destroyed
  else
    let cipher := ks.withNew draw.keyId draw.key
    (reencryptRows F secretKeys cipher ks false n (.start cipher.active) t.secrets).map fun r =>
      ({ keys := (t.create draw).keys.map fun x =>
           (x.1, if x.1 ∈ t.previousKeys ∧ x.2.retired = false then x.2.retire else x.2)
         secrets := r.1 },
        { r.2 with retired := t.previousKeys })

/-- Some value that is selected is not under the tenant's key. -/
def pending : Bool :=
  t.secrets.any fun x => x.1.selected secretKeys x.2 && x.2.value ≠ "" && !isV2 x.2.value

/-- `reencrypt_legacy`. -/
def reencryptLegacy : Except KeyError (Tenant K × Report) :=
  if t.pending secretKeys then
    match t.cipher draw with
    | .error error => .error error
    | .ok (cipher, t') =>
        (reencryptRows F secretKeys cipher cipher true n (.start cipher.active) t'.secrets).map
          fun r => ({ t' with secrets := r.1 }, r.2)
  else .ok (t, .start t.load.active)

/-- The update of `destroy_tenant_key`, its tombstone, and the number of the destroyed keys. -/
def shredKeys (destroyed : Bool) (tombstone : KeyId) (now : ℚ) : Tenant K × ℕ :=
  let count := t.keys.countP fun x => x.2.live
  let keys := t.keys.map fun x => (x.1, if x.2.live then x.2.shred else x.2)
  ({ t with
     keys := if count = 0 ∧ destroyed = false then (tombstone, ⟨.destroyed, now, false⟩) :: keys
       else keys },
    count)

/-- `destroy_tenant_key`. -/
def destroy (tombstone : KeyId) (now : ℚ) : Except KeyError (Tenant K × ℕ) :=
  let ks := t.load
  if ks.active ≠ none ∨ ks.destroyed = false then
    (t.reencryptLegacy F secretKeys draw n).map fun r => r.1.shredKeys ks.destroyed tombstone now
  else .ok (t.shredKeys ks.destroyed tombstone now)

end Model

/-- No key has the name that is drawn, and no stored value names it. -/
def Fresh (t : Tenant K) (draw : Draw K) : Prop :=
  t.keys.lookup draw.keyId = none ∧ ∀ x ∈ t.secrets, isV2 x.2.value = true →
    ∀ parsed, parseV2 x.2.value = .ok parsed → parsed.1 ≠ draw.keyId

/-- The values in which no plain text is found are left as they were. -/
def Leaves (F : Fernet K) (t t' : Tenant K) : Prop :=
  ∀ i s, t.secrets.lookup i = some s → s.plaintext F t.find i = none →
    t'.secrets.lookup i = some s

/-- The number of values of one table that the loop passes over. -/
def failures (F : Fernet K) (secretKeys : List String) (t : Tenant K) (onlyLegacy : Bool)
    (label : SecretTable) : ℕ :=
  t.secrets.countP fun x => x.1.selected secretKeys x.2 && x.1.table = label &&
    x.2.fails F t.find x.1 onlyLegacy

/-- The active key does not unwrap. -/
def Broken [DecidableEq K] (t : Tenant K) : Prop :=
  ∃ i, t.load.active = some i ∧ t.find i = some .broken

/-- Some value under the installation's key decrypts, or some setting is plain text. -/
def Convertible (F : Fernet K) (secretKeys : List String) (t : Tenant K) : Prop :=
  ∃ x ∈ t.secrets, x.1.selected secretKeys x.2 = true ∧ x.2.value ≠ "" ∧ isV2 x.2.value = false ∧
    (x.2.plaintext F t.find x.1).isSome = true

section Rows

variable {F : Fernet K} {secretKeys : List String} {t t' : Tenant K} {n : SecretId → ℕ}

/-- The body of the loop of `reencrypt_legacy` does not raise, where the keys can encrypt or no
value can be converted. -/
theorem forall_legacy_iff {cipher : KeySet K} :
    (∀ x ∈ t.secrets, x.1.selected secretKeys x.2 = true →
      ∃ outcome, x.2.reencryptAs F cipher.find x.1 cipher true (n x.1) = .ok outcome) ↔
      (t.Convertible F secretKeys → cipher.Usable) := by
  constructor
  · rintro h ⟨x, hx, hselected, hvalue, hv2, hplain⟩
    rw [Secret.plaintext_congr hv2 t.find cipher.find] at hplain
    exact Secret.exists_reencryptAs_legacy_iff.mp (h x hx hselected) hvalue hv2 hplain
  · intro h x hx hselected
    refine Secret.exists_reencryptAs_legacy_iff.mpr fun hvalue hv2 hplain => h ?_
    rw [Secret.plaintext_congr hv2 cipher.find t.find] at hplain
    exact ⟨x, hx, hselected, hvalue, hv2, hplain⟩

theorem Convertible.pending (h : t.Convertible F secretKeys) : t.pending secretKeys = true := by
  obtain ⟨x, hx, hselected, hvalue, hv2, -⟩ := h
  exact List.any_eq_true.mpr ⟨x, hx, by simp [hselected, hvalue, hv2]⟩

/-- A change of every row, under its key. -/
theorem lookup_map_row {ν : Type} (l : List (KeyId × ν)) (f : KeyId → ν → ν) (i : KeyId) :
    (l.map fun x => (x.1, f x.1 x.2)).lookup i = (l.lookup i).map (f i) := by
  induction l with
  | nil => rfl
  | cons x l ih =>
    by_cases hi : i = x.1
    · obtain ⟨j, v⟩ := x
      obtain rfl : i = j := hi
      simp
    · have hne : (i == x.1) = false := by simpa using hi
      rw [List.map_cons, List.lookup_cons, List.lookup_cons, hne, ih]

theorem exists_lookup_iff_mem {ν : Type} {l : List (KeyId × ν)} {i : KeyId} :
    (∃ v, l.lookup i = some v) ↔ i ∈ l.map Prod.fst := by
  induction l with
  | nil => simp
  | cons x l ih =>
    obtain ⟨j, v⟩ := x
    by_cases hi : i = j
    · subst hi
      simp
    · have hne : (i == j) = false := by simpa using hi
      simp only [List.lookup_cons, hne, ih, List.map_cons, List.mem_cons, hi, false_or]

/-- A loop leaves the values in which no plain text is found. -/
theorem leaves_of_rowOutcome {cipher old : KeySet K} {onlyLegacy : Bool}
    (h : List.Forall₂ (RowOutcome F secretKeys cipher old onlyLegacy n) t.secrets t'.secrets)
    (hold : onlyLegacy = true ∨ old.find = t.find) : t.Leaves F t' := by
  intro i s hs hnone
  obtain ⟨s', hs', houtcome⟩ := exists_lookup_of_rowOutcome h hs
  rcases houtcome.cases with rfl | ⟨p, value, hlegacy, hp, -, -⟩
  · exact hs'
  · have hplain : s.plaintext F t.find i = some p := by
      rcases hold with ho | hfind
      · rw [Secret.plaintext_congr (hlegacy ho) t.find old.find, hp]
      · rw [← hfind, hp]
    rw [hnone] at hplain
    cases hplain

end Rows

section Operations

variable [DecidableEq K] {F : Fernet K} {secretKeys : List String} {t t' : Tenant K} {draw : Draw K}
  {n : SecretId → ℕ} {i : KeyId} {report : Report}

/-- The active key is a key row that is not destroyed. -/
theorem exists_row_of_active (h : t.load.active = some i) :
    ∃ row, t.keys.lookup i = some row ∧ row.wrapped ≠ .destroyed := by
  have hmem := List.mem_of_getLast? h
  obtain ⟨-, hany⟩ := List.mem_filter.mp hmem
  obtain ⟨row, hrow, hlive⟩ := (Option.any_eq_true _ _).mp hany
  simp only [Bool.and_eq_true, decide_eq_true_eq] at hlive
  exact ⟨row, hrow, hlive.1⟩

/-- The keys of a tenant can encrypt, unless there is no active key or it does not unwrap. -/
theorem usable_load_iff : t.load.Usable ↔ t.load.active ≠ none ∧ ¬ t.Broken := by
  constructor
  · rintro ⟨i, key, hactive, hfind⟩
    refine ⟨by simp [hactive], ?_⟩
    rintro ⟨j, hj, hbroken⟩
    obtain rfl := Option.some.inj (hactive.symm.trans hj)
    cases hfind.symm.trans hbroken
  · rintro ⟨hactive, hbroken⟩
    obtain ⟨i, hi⟩ := Option.ne_none_iff_exists'.mp hactive
    obtain ⟨row, hrow, hlive⟩ := exists_row_of_active hi
    have hfind : t.load.find i = some row.wrapped := congrArg (Option.map KeyRow.wrapped) hrow
    cases hwrapped : row.wrapped with
    | dek key => exact ⟨i, key, hi, hwrapped ▸ hfind⟩
    | broken => exact absurd ⟨i, hi, hwrapped ▸ hfind⟩ hbroken
    | destroyed => exact absurd hwrapped hlive

/-- The cipher for a write is that of the tenant, or of a new key. -/
theorem cipher_cases {cipher : KeySet K} (h : t.cipher draw = .ok (cipher, t')) :
    cipher = t.load ∧ t' = t ∧ t.load.active ≠ none ∨
      cipher = t.load.withNew draw.keyId draw.key ∧ t' = t.create draw ∧ t.load.active = none := by
  simp only [Tenant.cipher] at h
  split_ifs at h with hactive hd
  · obtain ⟨rfl, rfl⟩ := Prod.mk.inj (Except.ok.inj h)
    exact .inr ⟨rfl, rfl, hactive⟩
  · obtain ⟨rfl, rfl⟩ := Prod.mk.inj (Except.ok.inj h)
    exact .inl ⟨rfl, rfl, hactive⟩

theorem exists_cipher_iff (draw : Draw K) : (∃ r, t.cipher draw = .ok r) ↔
    ¬ (t.load.active = none ∧ t.load.destroyed = true) := by
  simp only [Tenant.cipher]
  split_ifs <;> simp_all

/-- A new key, beside the others. -/
theorem find_create (t : Tenant K) (draw : Draw K) :
    (t.create draw).find = (t.load.withNew draw.keyId draw.key).find := by
  funext i
  change Option.map KeyRow.wrapped (List.lookup i (_ :: t.keys)) = if i = draw.keyId then _ else _
  rw [List.lookup_cons]
  split_ifs with hi
  · simp [hi]
  · have hne : (i == draw.keyId) = false := by simpa using hi
    rw [hne]
    rfl

/-- **A rotation** runs to its end if and only if every `v2:` value that is selected names a key,
and the keys of the tenant are not destroyed. -/
theorem exists_rotate_iff : (∃ r, t.rotate F secretKeys draw n = .ok r) ↔
    ¬ (t.load.active = none ∧ t.load.destroyed = true) ∧
      ∀ x ∈ t.secrets, x.1.selected secretKeys x.2 = true → isV2 x.2.value = true →
        ∃ parsed, parseV2 x.2.value = .ok parsed := by
  simp only [rotate]
  split_ifs with hd
  · simp [hd]
  · have hloop : (∃ r, reencryptRows F secretKeys (t.load.withNew draw.keyId draw.key) t.load
        false n (.start (t.load.withNew draw.keyId draw.key).active) t.secrets = .ok r) ↔ _ :=
      exists_reencryptRows_iff
    simp only [Secret.exists_reencryptAs_iff (KeySet.usable_withNew t.load draw.keyId draw.key)]
      at hloop
    rw [← hloop, and_iff_right hd]
    cases reencryptRows F secretKeys (t.load.withNew draw.keyId draw.key) t.load false n
      (.start (t.load.withNew draw.keyId draw.key).active) t.secrets <;> simp [Except.map]

theorem rotate_spec (h : t.rotate F secretKeys draw n = .ok (t', report)) :
    t'.find = (t.load.withNew draw.keyId draw.key).find ∧
      List.Forall₂ (RowOutcome F secretKeys (t.load.withNew draw.keyId draw.key) t.load false n)
        t.secrets t'.secrets ∧
      (t.Fresh draw → ∀ label, report.failed label = t.failures F secretKeys false label) := by
  simp only [rotate] at h
  split_ifs at h
  cases hloop : reencryptRows F secretKeys (t.load.withNew draw.keyId draw.key) t.load false n
      (.start (t.load.withNew draw.keyId draw.key).active) t.secrets with
  | error error => simp [hloop, Except.map] at h
  | ok r =>
    rw [hloop] at h
    obtain ⟨rfl, rfl⟩ := Prod.mk.inj (Except.ok.inj h)
    obtain ⟨hrows, hcount⟩ := reencryptRows_spec hloop
    refine ⟨?_, hrows, fun hfresh label => ?_⟩
    · rw [← find_create]
      funext i
      refine (congrArg (Option.map KeyRow.wrapped) (lookup_map_row (t.create draw).keys
        (fun j row => if j ∈ t.previousKeys ∧ row.retired = false then row.retire else row)
        i)).trans ?_
      rw [Option.map_map]
      refine Option.map_congr fun row _ => ?_
      change KeyRow.wrapped (if _ then _ else _) = _
      split_ifs <;> rfl
    · refine (hcount (fun _ x hx hv2 parsed hparse hactive => ?_) label).trans (Nat.zero_add _)
      exact hfresh.2 x hx hv2 parsed hparse (Option.some.inj hactive).symm

/-- The re-encryption of legacy values finds nothing to do, or runs its loop. -/
theorem reencryptLegacy_cases (h : t.reencryptLegacy F secretKeys draw n = .ok (t', report)) :
    t.pending secretKeys = false ∧ t' = t ∧ report = .start t.load.active ∨
      ∃ cipher t₁, t.cipher draw = .ok (cipher, t₁) ∧ t'.keys = t₁.keys ∧
        List.Forall₂ (RowOutcome F secretKeys cipher cipher true n) t.secrets t'.secrets ∧
        ∀ label, report.failed label = t.failures F secretKeys true label := by
  unfold reencryptLegacy at h
  split_ifs at h with hpending
  · cases hcipher : t.cipher draw with
    | error error => simp [hcipher] at h
    | ok c =>
      obtain ⟨cipher, t₁⟩ := c
      have hsecrets : t₁.secrets = t.secrets := by
        rcases cipher_cases hcipher with ⟨-, rfl, -⟩ | ⟨-, rfl, -⟩ <;> rfl
      simp only [hcipher, hsecrets] at h
      cases hloop : reencryptRows F secretKeys cipher cipher true n (.start cipher.active)
          t.secrets with
      | error error => simp [hloop, Except.map] at h
      | ok r =>
        rw [hloop] at h
        obtain ⟨rfl, rfl⟩ := Prod.mk.inj (Except.ok.inj h)
        obtain ⟨hrows, hcount⟩ := reencryptRows_spec hloop
        refine .inr ⟨cipher, t₁, rfl, rfl, hrows, fun label => ?_⟩
        refine ((hcount (fun ho => nomatch ho) label).trans (Nat.zero_add _)).trans ?_
        refine List.countP_congr fun x _ => ?_
        -- A value that names no key fails alike under all keys.
        cases hv2 : isV2 x.2.value with
        | true => simp [Secret.fails, hv2]
        | false => simp [Secret.fails, Secret.plaintext_congr hv2 t.find cipher.find]
  · obtain ⟨rfl, rfl⟩ := Prod.mk.inj (Except.ok.inj h)
    exact .inl ⟨by simpa using hpending, rfl, rfl⟩

/-- **The re-encryption of legacy values** runs to its end if and only if there is nothing to do, or
the tenant's keys are not destroyed and can encrypt what can be converted. -/
theorem exists_reencryptLegacy_iff : (∃ r, t.reencryptLegacy F secretKeys draw n = .ok r) ↔
    (t.pending secretKeys = true → ¬ (t.load.active = none ∧ t.load.destroyed = true) ∧
      (t.Broken → ¬ t.Convertible F secretKeys)) := by
  unfold reencryptLegacy
  split_ifs with hpending
  · rw [imp_iff_right hpending, ← exists_cipher_iff draw]
    cases hcipher : t.cipher draw with
    | error error => simp
    | ok c =>
      obtain ⟨cipher, t₁⟩ := c
      have hiff : (cipher.Usable ↔ ¬ t.Broken) ∧ t₁.secrets = t.secrets := by
        rcases cipher_cases hcipher with ⟨rfl, rfl, hactive⟩ | ⟨rfl, rfl, hactive⟩
        · exact ⟨by simp [usable_load_iff, hactive], rfl⟩
        · refine ⟨iff_of_true (KeySet.usable_withNew ..) ?_, rfl⟩
          rintro ⟨i, hi, -⟩
          cases hactive.symm.trans hi
      have hloop : (∃ r, reencryptRows F secretKeys cipher cipher true n (.start cipher.active)
          t.secrets = .ok r) ↔ _ := exists_reencryptRows_iff
      rw [forall_legacy_iff, hiff.1] at hloop
      have hsome : (∃ r, (Except.ok (cipher, t₁) : Except KeyError _) = .ok r) := ⟨_, rfl⟩
      rw [and_iff_right hsome, ← not_imp_not, not_not, ← hloop]
      simp only [hiff.2]
      cases reencryptRows F secretKeys cipher cipher true n (.start cipher.active) t.secrets <;>
        simp [Except.map]
  · simp [hpending]

theorem leaves_reencryptLegacy (h : t.reencryptLegacy F secretKeys draw n = .ok (t', report)) :
    t.Leaves F t' := by
  rcases reencryptLegacy_cases h with ⟨-, rfl, -⟩ | ⟨cipher, t₁, -, -, hrows, -⟩
  · exact fun i s hs _ => hs
  · exact leaves_of_rowOutcome hrows (.inl rfl)

/-- The re-encryption of legacy values drops no key row. -/
theorem keys_reencryptLegacy (h : t.reencryptLegacy F secretKeys draw n = .ok (t', report))
    (hkeys : t.keys ≠ []) : t'.keys ≠ [] := by
  rcases reencryptLegacy_cases h with ⟨-, rfl, -⟩ | ⟨cipher, t₁, hcipher, heq, -, -⟩
  · exact hkeys
  · rw [heq]
    rcases cipher_cases hcipher with ⟨-, rfl, -⟩ | ⟨-, rfl, -⟩
    · exact hkeys
    · exact List.cons_ne_nil _ _

/-- **The keys are destroyed.** -/
theorem dead_shredKeys {destroyed : Bool} (hkeys : destroyed = true → t.keys ≠ [])
    (tombstone : KeyId) (now : ℚ) : Dead (t.shredKeys destroyed tombstone now).1.load := by
  set keys := (t.shredKeys destroyed tombstone now).1.keys with hdef
  have hshred (i : KeyId) (row : KeyRow K)
      (hrow : (t.keys.map fun x =>
        (x.1, if x.2.live then x.2.shred else x.2)).lookup i = some row) :
      row.wrapped = .destroyed := by
    rw [lookup_map_row t.keys (fun _ row => if row.live then row.shred else row)] at hrow
    obtain ⟨row₀, -, rfl⟩ := Option.map_eq_some_iff.mp hrow
    split_ifs with hlive
    · rfl
    · exact live_eq_false.mp (by simpa using hlive)
  have hall : AllTombs fun i => keys.lookup i := by
    intro i row hrow
    simp only [hdef, shredKeys] at hrow
    split_ifs at hrow
    · rw [List.lookup_cons] at hrow
      split at hrow
      · exact Option.some.inj hrow ▸ rfl
      · exact hshred i row hrow
    · exact hshred i row hrow
  have hne : keys ≠ [] := by
    simp only [hdef, shredKeys]
    split_ifs with hnone
    · exact List.cons_ne_nil _ _
    · have ht : t.keys ≠ [] := by
        rcases not_and_or.mp hnone with hcount | hd
        · rintro hnil
          exact hcount (by rw [hnil]; rfl)
        · exact hkeys (by simpa using hd)
      simpa using ht
  obtain ⟨x, l, hcons⟩ := List.exists_cons_of_ne_nil hne
  obtain ⟨row, hrow⟩ := exists_lookup_iff_mem.mpr
    (show x.1 ∈ keys.map Prod.fst by rw [hcons]; exact List.mem_cons_self)
  exact dead_keySet_load (fun i row hrow => exists_lookup_iff_mem.mp ⟨row, hrow⟩) hall
    ⟨x.1, row, hrow, hall x.1 row hrow⟩

/-- A tenant whose keys are destroyed has key rows. -/
theorem keys_ne_nil_of_destroyed (h : t.load.destroyed = true) : t.keys ≠ [] := by
  rintro hnil
  simp [load, KeySet.load, hnil] at h

/-- **A destroy** runs to its end if and only if the tenant's keys can encrypt what can be
converted. -/
theorem exists_destroy_iff {tombstone : KeyId} {now : ℚ} :
    (∃ r, t.destroy F secretKeys draw n tombstone now = .ok r) ↔
      (t.Broken → ¬ t.Convertible F secretKeys) := by
  have hlegacy : (∃ r, t.reencryptLegacy F secretKeys draw n = .ok r) ↔ _ :=
    exists_reencryptLegacy_iff
  simp only [destroy]
  split_ifs with hks
  · have hlive : ¬ (t.load.active = none ∧ t.load.destroyed = true) := by
      rintro ⟨hactive, hd⟩
      rcases hks with hks | hks
      · exact hks hactive
      · cases hd.symm.trans hks
    have hmap : (∃ r, (t.reencryptLegacy F secretKeys draw n).map
        (fun r => r.1.shredKeys t.load.destroyed tombstone now) = .ok r) ↔
        ∃ r, t.reencryptLegacy F secretKeys draw n = .ok r := by
      cases t.reencryptLegacy F secretKeys draw n <;> simp [Except.map]
    rw [hmap, hlegacy]
    exact ⟨fun h hbroken hconvertible => (h hconvertible.pending).2 hbroken hconvertible,
      fun h _ => ⟨hlive, h⟩⟩
  · refine iff_of_true ⟨_, rfl⟩ ?_
    rintro ⟨i, hi, -⟩
    exact absurd (Or.inl (by simp [hi])) hks

/-- A destroy that runs to its end leaves dead keys. -/
theorem destroy_spec {tombstone : KeyId} {now : ℚ} {count : ℕ}
    (h : t.destroy F secretKeys draw n tombstone now = .ok (t', count)) :
    t.Leaves F t' ∧ Dead t'.load := by
  simp only [destroy] at h
  split_ifs at h with hks
  · cases hlegacy : t.reencryptLegacy F secretKeys draw n with
    | error error => simp [hlegacy, Except.map] at h
    | ok r =>
      obtain ⟨t₁, report⟩ := r
      rw [hlegacy] at h
      obtain ⟨rfl, -⟩ := Prod.mk.inj (Except.ok.inj h)
      refine ⟨?_, dead_shredKeys (fun hd => ?_) tombstone now⟩
      · exact (leaves_reencryptLegacy hlegacy : t.Leaves F t₁)
      · exact keys_reencryptLegacy hlegacy (keys_ne_nil_of_destroyed hd)
  · obtain ⟨rfl, -⟩ := Prod.mk.inj (Except.ok.inj h)
    exact ⟨fun i s hs _ => hs, dead_shredKeys keys_ne_nil_of_destroyed tombstone now⟩

end Operations

end Tenant

/-! ### The operations, to their ends -/

/-- The operations that encrypt a tenant's secrets again. -/
inductive Maintenance
  | rotate
  | reencryptLegacy
  | destroy (tombstone : KeyId) (now : ℚ)

namespace Maintenance

section Model

variable [DecidableEq K] (F : Fernet K) (secretKeys : List String) (t : Tenant K) (draw : Draw K)
  (n : SecretId → ℕ)

/-- The operation runs to its end; it leaves the values in which it finds no plain text, and counts
those that it tries. A destroy leaves dead keys. -/
def Completes : Maintenance → Prop
  | rotate => ∃ t' report, t.rotate F secretKeys draw n = .ok (t', report) ∧ t.Leaves F t' ∧
      ∀ label, report.failed label = t.failures F secretKeys false label
  | reencryptLegacy => ∃ t' report, t.reencryptLegacy F secretKeys draw n = .ok (t', report) ∧
      t.Leaves F t' ∧ ∀ label, report.failed label = t.failures F secretKeys true label
  | destroy tombstone now => ∃ t' count,
      t.destroy F secretKeys draw n tombstone now = .ok (t', count) ∧ t.Leaves F t' ∧ Dead t'.load

/-- What the operation asks of the keys and the values. -/
def CanComplete : Maintenance → Prop
  | rotate => ¬ (t.load.active = none ∧ t.load.destroyed = true) ∧
      ∀ x ∈ t.secrets, x.1.selected secretKeys x.2 = true → isV2 x.2.value = true →
        ∃ parsed, parseV2 x.2.value = .ok parsed
  | reencryptLegacy => t.pending secretKeys = true →
      ¬ (t.load.active = none ∧ t.load.destroyed = true) ∧
        (t.Broken → ¬ t.Convertible F secretKeys)
  | destroy _ _ => t.Broken → ¬ t.Convertible F secretKeys

end Model

section Completion

variable {F : Fernet K} {secretKeys : List String} {t : Tenant K} {draw : Draw K} {n : SecretId → ℕ}

/-- A report without a loop counts nothing, and there was nothing to count. -/
theorem failures_of_not_pending (h : t.pending secretKeys = false) (label : SecretTable) :
    t.failures F secretKeys true label = 0 := by
  refine List.countP_eq_zero.mpr fun x hx hfails => ?_
  simp only [Secret.fails, Bool.and_true, Bool.and_eq_true] at hfails
  obtain ⟨⟨hselected, -⟩, ⟨hvalue, hv2⟩, -⟩ := hfails
  have hpending : t.pending secretKeys = true :=
    List.any_eq_true.mpr ⟨x, hx, by simp only [hselected, hvalue, hv2, Bool.and_self]⟩
  cases h.symm.trans hpending

/-- **Exactly when an operation runs to its end.** -/
theorem completes_iff [DecidableEq K] (hfresh : t.Fresh draw) (operation : Maintenance) :
    operation.Completes F secretKeys t draw n ↔ operation.CanComplete F secretKeys t := by
  cases operation with
  | rotate =>
    have hrotate : (∃ r, t.rotate F secretKeys draw n = .ok r) ↔ _ := Tenant.exists_rotate_iff
    refine Iff.trans ⟨?_, ?_⟩ hrotate
    · rintro ⟨t', report, h, -⟩
      exact ⟨_, h⟩
    · rintro ⟨⟨t', report⟩, h⟩
      obtain ⟨-, hrows, hcount⟩ := Tenant.rotate_spec h
      exact ⟨t', report, h, Tenant.leaves_of_rowOutcome hrows (.inr rfl), hcount hfresh⟩
  | reencryptLegacy =>
    have hlegacy : (∃ r, t.reencryptLegacy F secretKeys draw n = .ok r) ↔ _ :=
      Tenant.exists_reencryptLegacy_iff
    refine Iff.trans ⟨?_, ?_⟩ hlegacy
    · rintro ⟨t', report, h, -⟩
      exact ⟨_, h⟩
    · rintro ⟨⟨t', report⟩, h⟩
      refine ⟨t', report, h, Tenant.leaves_reencryptLegacy h, fun label => ?_⟩
      rcases Tenant.reencryptLegacy_cases h with ⟨hpending, -, rfl⟩ | ⟨-, -, -, -, -, hcount⟩
      · exact (failures_of_not_pending hpending label).symm
      · exact hcount label
  | destroy tombstone now =>
    have hdestroy : (∃ r, t.destroy F secretKeys draw n tombstone now = .ok r) ↔ _ :=
      Tenant.exists_destroy_iff
    refine Iff.trans ⟨?_, ?_⟩ hdestroy
    · rintro ⟨t', count, h, -⟩
      exact ⟨_, h⟩
    · rintro ⟨⟨t', count⟩, h⟩
      exact ⟨t', count, h, Tenant.destroy_spec h⟩

end Completion

/-! ### Samples -/

open Vault (sampleFernet sampleKeys sampleNewKey sampleOldKey)

def sampleDraw : Draw Char := ⟨sampleNewKey, 'b', 1⟩

/-- A value that was cut off within its prefix, beside one that decrypts. -/
def sampleTruncated : Tenant Char :=
  ⟨sampleKeys, [(.credential 1, ⟨"v2:", false⟩),
    (.credential 2, ⟨sealed sampleOldKey (sampleFernet.encrypt 'a' 0 "password"), false⟩)]⟩

theorem fresh_sampleTruncated : sampleTruncated.Fresh sampleDraw := by
  refine ⟨by decide +kernel, fun x hx _ parsed hparse => ?_⟩
  rcases List.mem_pair.mp hx with rfl | rfl
  · have hmalformed : (match parseV2 "v2:" with
        | .ok _ => false
        | .error _ => true) = true := by decide +kernel
    change parseV2 "v2:" = .ok parsed at hparse
    simp [hparse] at hmalformed
  · rw [parseV2_sealed _ (sampleFernet.encrypt_ne 'a' 0 "password")] at hparse
    obtain rfl := Except.ok.inj hparse
    decide

theorem usable_sampleTruncated : sampleTruncated.load.Usable :=
  ⟨sampleOldKey, 'a', by decide +kernel, by decide +kernel⟩

/-- The truncated value does not keep the keys from being destroyed. -/
theorem completes_iff_sampleTruncated :
    (destroy sampleNewKey 1).Completes sampleFernet [] sampleTruncated sampleDraw fun _ => 0 :=
  (completes_iff fresh_sampleTruncated (destroy sampleNewKey 1)).mpr
    fun hbroken => absurd hbroken (Tenant.usable_load_iff.mp usable_sampleTruncated).2

/-- The truncated value makes every rotation raise. -/
theorem rotate_truncated :
    ¬∀ (K : Type) (_ : DecidableEq K) (F : Fernet K) (secretKeys : List String) (t : Tenant K)
      (draw : Draw K) (n : SecretId → ℕ), t.load.Usable → t.Fresh draw →
        rotate.Completes F secretKeys t draw n := by
  intro hall
  obtain ⟨t', report, h, -⟩ := hall Char _ sampleFernet [] sampleTruncated sampleDraw (fun _ => 0)
    usable_sampleTruncated fresh_sampleTruncated
  have hrotate : (match sampleTruncated.rotate sampleFernet [] sampleDraw fun _ => 0 with
      | .ok _ => true
      | .error _ => false) = false := by decide +kernel
  simp [h] at hrotate

end Maintenance

end Nodeglow.Secrets
