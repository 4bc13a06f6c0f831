import Nodeglow.Backend.Secrets.Reencryption

/-!
# The life of the keys

Tenants encrypt secrets, rotate their keys and encrypt legacy values again, in any order. An
operation adds at most one key and retires others, and a retired key stays readable; it replaces a
value only by the plain text that it has found in it, encrypted under a key of the tenant. So a
plain text that was found in a value is found in it ever after, and a value in which none was found
stays as it is (`Store.lifecycle`).

A secret setting without the `encrypted` flag may be plain text. Where such a value neither decrypts
nor looks like a token, it is its own plain text, and is encrypted
(`Store.plain_setting_encrypted`).

Fernet authenticates a token: no other key decrypts it. The keys and their names are drawn at
random, so that a new one is no other tenant's, decrypts nothing that is stored, and has a name of
its own.

## Main results

* `Tenant.Moves`, `Operation.moves` — what one operation does to a tenant.

Source: `backend/services/tenant_keys.py`, lines 277–420, 517–562 and 606–642.
-/

namespace Nodeglow.Secrets

variable {K : Type}

/-- A token decrypts under its own key only. -/
def Fernet.Authentic (F : Fernet K) : Prop :=
  ∀ key key' n plaintext, key ≠ key' → F.decrypt key' (F.encrypt key n plaintext) = none

/-! ### Operations -/

namespace Tenant

variable [DecidableEq K] (F : Fernet K) (secretKeys : List String) (t : Tenant K) (draw : Draw K)

/-- Store a secret. -/
def putSecret (i : SecretId) (s : Secret) : Tenant K :=
  { t with secrets := (i, s) :: t.secrets.filter fun x => x.1 ≠ i }

/-- `encrypt_secret`, and the row that its caller writes. -/
def encryptSecret (n : ℕ) (i : SecretId) (plaintext : String) (encrypted : Bool) :
    Except KeyError (Tenant K) :=
  match t.cipher draw with
  | .error error => .error error
  | .ok (cipher, t') =>
      (encrypt F cipher n plaintext).map fun value => t'.putSecret i ⟨value, encrypted⟩

end Tenant

/-- An operation of a tenant, with what it draws. -/
inductive Operation
  | encrypt (i : SecretId) (plaintext : String) (encrypted : Bool)
  | rotate
  | reencryptLegacy

/-- The tenants of an installation. -/
abbrev Store (K : Type) := ℤ → Tenant K

/-- An operation, with its tenant, and what it draws. -/
structure Call (K : Type) where
  tenant : ℤ
  operation : Operation
  draw : Draw K
  n : SecretId → ℕ

section Model

variable [DecidableEq K] (F : Fernet K) (secretKeys : List String)

/-- The operation for one tenant. -/
def Call.run (c : Call K) (t : Tenant K) : Except KeyError (Tenant K) :=
  match c.operation with
  | .encrypt i plaintext encrypted => t.encryptSecret F c.draw (c.n i) i plaintext encrypted
  | .rotate => (t.rotate F secretKeys c.draw c.n).map Prod.fst
  | .reencryptLegacy => (t.reencryptLegacy F secretKeys c.draw c.n).map Prod.fst

/-- A call; where it raises, its transaction is rolled back. -/
def Store.call (st : Store K) (c : Call K) : Store K :=
  match c.run F secretKeys (st c.tenant) with
  | .ok t => Function.update st c.tenant t
  | .error _ => st

/-- The transition relation of `Store.call`. -/
def Store.Step (st : Store K) (c : Call K) (st' : Store K) : Prop := st.call F secretKeys c = st'

end Model

/-- **What is drawn is new**: no tenant has the key, it decrypts nothing that is stored, and no key
of the tenant has its name. -/
def Store.Fresh (F : Fernet K) (st : Store K) (c : Call K) : Prop :=
  (st c.tenant).keys.lookup c.draw.keyId = none ∧
    (∀ a i, (st a).find i ≠ some (.dek c.draw.key)) ∧
    ∀ a, ∀ x ∈ (st a).secrets, ∀ parsed, parseV2 x.2.value = .ok parsed →
      F.decrypt c.draw.key parsed.2 = none

/-- No two tenants have a key in common. -/
def Store.Separate (st : Store K) : Prop :=
  ∀ a b i j key, a ≠ b → (st a).find i = some (.dek key) → (st b).find j ≠ some (.dek key)

/-- The call stores a new value under the secret. -/
def Call.Writes (c : Call K) (a : ℤ) (i : SecretId) : Prop :=
  c.tenant = a ∧ ∃ plaintext encrypted, c.operation = .encrypt i plaintext encrypted

/-! ### One operation -/

/-- The value is the plain text, encrypted under a key of the tenant. -/
def Sealed (F : Fernet K) (find : KeyId → Option (Wrapped K)) (p value : String) : Prop :=
  ∃ keyId key n, value = sealed keyId (F.encrypt key n p) ∧ find keyId = some (.dek key)

section Sealed

variable {F : Fernet K} {find : KeyId → Option (Wrapped K)} {p value : String}

theorem Sealed.isV2 (h : Sealed F find p value) : isV2 value = true := by
  obtain ⟨keyId, key, n, rfl, -⟩ := h
  exact isV2_sealed keyId _

theorem Sealed.decrypt (h : Sealed F find p value) : decrypt F find value = .ok p := by
  obtain ⟨keyId, key, n, rfl, hfind⟩ := h
  unfold Secrets.decrypt
  rw [if_pos (isV2_sealed ..), parseV2_sealed keyId (F.encrypt_ne key n p)]
  simp only [hfind, F.decrypt_encrypt]

theorem sealed_of_encrypt {ks : KeySet K} {n : ℕ} (h : encrypt F ks n p = .ok value) :
    Sealed F ks.find p value := by
  obtain ⟨keyId, key, hactive, hfind⟩ := exists_encrypt_iff.mp ⟨value, h⟩
  unfold encrypt at h
  simp only [hactive, hfind] at h
  exact ⟨keyId, key, n, (Except.ok.inj h).symm, hfind⟩

/-- Another tenant cannot read the value. -/
theorem Sealed.decrypt_ne (hF : F.Authentic) (h : Sealed F find p value)
    {g : KeyId → Option (Wrapped K)}
    (hg : ∀ i j key, find i = some (.dek key) → g j ≠ some (.dek key)) (q : String) :
    Secrets.decrypt F g value ≠ .ok q := by
  obtain ⟨keyId, key, n, rfl, hfind⟩ := h
  unfold Secrets.decrypt
  rw [if_pos (isV2_sealed ..), parseV2_sealed keyId (F.encrypt_ne key n p)]
  dsimp only
  cases hkey : g keyId with
  | none => simp
  | some wrapped =>
    cases wrapped with
    | dek key' =>
      have hne : key ≠ key' := by
        rintro rfl
        exact hg keyId keyId key hfind hkey
      simp [hF key key' n p hne]
    | _ => simp

end Sealed

/-- What an operation makes of one row. -/
def Moved (F : Fernet K) (find find' : KeyId → Option (Wrapped K)) (i : SecretId)
    (s s' : Secret) : Prop :=
  s' = s ∨ ∃ p value, s.plaintext F find i = some p ∧ Sealed F find' p value ∧
    s' = { s with value := value }

/-- What an operation makes of a tenant. -/
structure Tenant.Moves (F : Fernet K) (draw : Draw K) (writes : SecretId → Prop)
    (t t' : Tenant K) : Prop where
  keys : t'.find = t.find ∨
    t'.find = fun i => if i = draw.keyId then some (.dek draw.key) else t.find i
  rows : ∀ i s, ¬ writes i → t.secrets.lookup i = some s →
    ∃ s', t'.secrets.lookup i = some s' ∧ Moved F t.find t'.find i s s'
  none : ∀ i, ¬ writes i → t.secrets.lookup i = none → t'.secrets.lookup i = none
  written : ∀ i s', writes i → t'.secrets.lookup i = some s' → ∃ p, Sealed F t'.find p s'.value

section Rows

variable {F : Fernet K} {secretKeys : List String} {t t' : Tenant K} {draw : Draw K}

/-- A loop over the rows, with the keys after it. -/
theorem moves_of_rowOutcome {cipher old : KeySet K} {onlyLegacy : Bool} {n : SecretId → ℕ}
    (hkeys : t'.find = t.find ∨
      t'.find = fun i => if i = draw.keyId then some (.dek draw.key) else t.find i)
    (hcipher : cipher.find = t'.find) (hold : onlyLegacy = true ∨ old.find = t.find)
    (h : List.Forall₂ (RowOutcome F secretKeys cipher old onlyLegacy n) t.secrets t'.secrets) :
    Tenant.Moves F draw (fun _ => False) t t' where
  keys := hkeys
  rows i s _ hs := by
    obtain ⟨s', hs', houtcome⟩ := exists_lookup_of_rowOutcome h hs
    refine ⟨s', hs', houtcome.cases.imp_right ?_⟩
    rintro ⟨p, value, hlegacy, hp, hvalue, rfl⟩
    refine ⟨p, value, ?_, hcipher ▸ sealed_of_encrypt hvalue, rfl⟩
    rcases hold with ho | hfind
    · rw [Secret.plaintext_congr (hlegacy ho) t.find old.find, hp]
    · rw [← hfind, hp]
  none i _ hs := lookup_eq_none_of_rowOutcome h hs
  written i s' hw := hw.elim

theorem lookup_putSecret (t : Tenant K) (i : SecretId) (s : Secret) (j : SecretId) :
    (t.putSecret i s).secrets.lookup j = if j = i then some s else t.secrets.lookup j := by
  change List.lookup j (_ :: _) = _
  rw [List.lookup_cons]
  split_ifs with hji
  · simp [hji]
  · have hne : (j == i) = false := by simpa using hji
    rw [hne]
    have hfilter (l : List (SecretId × Secret)) :
        (l.filter fun x => x.1 ≠ i).lookup j = l.lookup j := by
      induction l with
      | nil => rfl
      | cons x l ih =>
        by_cases hx : x.1 = i
        · have hne' : (j == x.1) = false := by simpa [hx] using hji
          rw [List.filter_cons_of_neg (by simpa using hx), List.lookup_cons, hne', ih]
        · rw [List.filter_cons_of_pos (by simpa using hx), List.lookup_cons, List.lookup_cons, ih]
    exact hfilter t.secrets

end Rows

section Operations

variable [DecidableEq K] {F : Fernet K} {secretKeys : List String} {t t' : Tenant K} {draw : Draw K}

theorem moves_rotate {n : SecretId → ℕ} {report : Report}
    (h : t.rotate F secretKeys draw n = .ok (t', report)) :
    Tenant.Moves F draw (fun _ => False) t t' := by
  obtain ⟨hfind, hrows, -⟩ := Tenant.rotate_spec h
  exact moves_of_rowOutcome (.inr hfind) hfind.symm (.inr rfl) hrows

/-- The keys of a tenant that gets its cipher for a write. -/
theorem find_of_cipher {cipher : KeySet K} {t₁ : Tenant K} (h : t.cipher draw = .ok (cipher, t₁)) :
    cipher.find = t₁.find ∧ (t₁.find = t.find ∨
      t₁.find = fun i => if i = draw.keyId then some (.dek draw.key) else t.find i) := by
  rcases Tenant.cipher_cases h with ⟨rfl, rfl, -⟩ | ⟨rfl, rfl, -⟩
  · exact ⟨rfl, .inl rfl⟩
  · rw [Tenant.find_create]
    exact ⟨rfl, .inr rfl⟩

theorem moves_reencryptLegacy {n : SecretId → ℕ} {report : Report}
    (h : t.reencryptLegacy F secretKeys draw n = .ok (t', report)) :
    Tenant.Moves F draw (fun _ => False) t t' := by
  rcases Tenant.reencryptLegacy_cases h with ⟨-, rfl, -⟩ | ⟨cipher, t₁, hcipher, heq, hrows, -⟩
  · exact ⟨.inl rfl, fun i s _ hs => ⟨s, hs, .inl rfl⟩, fun i _ hs => hs, fun i s' hw => hw.elim⟩
  · have hfind : t'.find = t₁.find := by
      unfold Tenant.find
      rw [heq]
    obtain ⟨hc, hkeys⟩ := find_of_cipher hcipher
    exact moves_of_rowOutcome (hfind ▸ hkeys) (hc.trans hfind.symm) (.inl rfl) hrows

theorem moves_encryptSecret {n : ℕ} {i : SecretId} {plaintext : String} {encrypted : Bool}
    (h : t.encryptSecret F draw n i plaintext encrypted = .ok t') :
    Tenant.Moves F draw (fun j => j = i) t t' := by
  unfold Tenant.encryptSecret at h
  cases hcipher : t.cipher draw with
  | error error => simp [hcipher] at h
  | ok c =>
    obtain ⟨cipher, t₁⟩ := c
    simp only [hcipher] at h
    cases hvalue : encrypt F cipher n plaintext with
    | error error => simp [hvalue, Except.map] at h
    | ok value =>
      rw [hvalue] at h
      obtain rfl := Except.ok.inj h
      obtain ⟨hc, hkeys⟩ := find_of_cipher hcipher
      have hsecrets : t₁.secrets = t.secrets := by
        rcases Tenant.cipher_cases hcipher with ⟨-, rfl, -⟩ | ⟨-, rfl, -⟩ <;> rfl
      have hfind : (t₁.putSecret i ⟨value, encrypted⟩).find = t₁.find := rfl
      refine ⟨hfind ▸ hkeys, fun j s hj hs => ⟨s, ?_, .inl rfl⟩, fun j hj hs => ?_,
        fun j s' hj hs' => ⟨plaintext, ?_⟩⟩
      · rw [lookup_putSecret, if_neg hj, hsecrets, hs]
      · rw [lookup_putSecret, if_neg hj, hsecrets, hs]
      · rw [lookup_putSecret, if_pos hj] at hs'
        obtain rfl := Option.some.inj hs'
        exact hfind ▸ hc ▸ sealed_of_encrypt hvalue

/-- **What one operation does to its tenant.** -/
theorem Call.moves {c : Call K} (h : c.run F secretKeys t = .ok t') :
    Tenant.Moves F c.draw (fun i => c.Writes c.tenant i) t t' := by
  unfold Call.run at h
  have hfst {α β ε : Type} {x : Except ε (α × β)} {a : α} (h : x.map Prod.fst = .ok a) :
      ∃ b, x = .ok (a, b) := by
    cases x with
    | error error => simp [Except.map] at h
    | ok y => exact ⟨y.2, by rw [← Except.ok.inj h]⟩
  cases hop : c.operation with
  | encrypt i plaintext encrypted =>
    rw [hop] at h
    have hmoves := moves_encryptSecret h
    have hwrites (j : SecretId) : c.Writes c.tenant j ↔ j = i := by
      constructor
      · rintro ⟨-, p, e, heq⟩
        rw [hop] at heq
        exact (Operation.encrypt.inj heq).1.symm
      · rintro rfl
        exact ⟨rfl, plaintext, encrypted, hop⟩
    simpa only [hwrites] using hmoves
  | rotate =>
    rw [hop] at h
    obtain ⟨report, h⟩ := hfst h
    have hmoves := moves_rotate h
    simpa only [Writes, hop, reduceCtorEq, exists_false, and_false] using hmoves
  | reencryptLegacy =>
    rw [hop] at h
    obtain ⟨report, h⟩ := hfst h
    have hmoves := moves_reencryptLegacy h
    simpa only [Writes, hop, reduceCtorEq, exists_false, and_false] using hmoves

end Operations

/-! ### Runs -/

/-- What a row holds after some operations: the plain text that it held. -/
structure Kept (F : Fernet K) (find find' : KeyId → Option (Wrapped K)) (i : SecretId)
    (s s' : Secret) : Prop where
  plaintext : s'.plaintext F find' i = s.plaintext F find i
  changed : s' = s ∨ isV2 s'.value = true ∧ (s.plaintext F find i).isSome = true

section Kept

variable {F : Fernet K} {find find' find'' : KeyId → Option (Wrapped K)} {i : SecretId}
  {s s' s'' : Secret} {p : String}

theorem Kept.refl (s : Secret) : Kept F find find i s s := ⟨rfl, .inl rfl⟩

theorem Kept.trans (h : Kept F find find' i s s') (h' : Kept F find' find'' i s' s'') :
    Kept F find find'' i s s'' := by
  refine ⟨h'.plaintext.trans h.plaintext, ?_⟩
  rcases h'.changed with rfl | ⟨hv2, hsome⟩
  · exact h.changed
  · exact .inr ⟨hv2, h.plaintext ▸ hsome⟩

theorem decrypt_of_plaintext (hp : s.plaintext F find i = some p) (hv2 : isV2 s.value = true) :
    decrypt F find s.value = .ok p := by
  unfold Secret.plaintext at hp
  split at hp
  · next q hq => exact (Option.some.inj hp) ▸ hq
  · simp [hv2] at hp

theorem plaintext_of_decrypt (h : decrypt F find s.value = .ok p) :
    s.plaintext F find i = some p := by
  unfold Secret.plaintext
  rw [h]

/-- What decrypts, decrypts alike. -/
theorem Kept.decrypt (h : Kept F find find' i s s') (hfind : Extends find find')
    (hp : decrypt F find s.value = .ok p) : Secrets.decrypt F find' s'.value = .ok p := by
  rcases h.changed with rfl | ⟨hv2, -⟩
  · exact decrypt_mono F hfind hp
  · exact decrypt_of_plaintext (h.plaintext.trans (plaintext_of_decrypt hp)) hv2

/-- What does not decrypt stays as it is, unless it is a plain setting. -/
theorem Kept.eq_or_plain (h : Kept F find find' i s s')
    (hp : ∀ p, Secrets.decrypt F find s.value ≠ .ok p) :
    s' = s ∨ i.plaintextOk s = true ∧ isV2 s.value = false ∧
      startsWith s.value fernetPrefix = false ∧
        Secrets.decrypt F find' s'.value = .ok s.value := by
  rcases h.changed with rfl | ⟨hv2, hsome⟩
  · exact .inl rfl
  · right
    obtain ⟨p, hplain⟩ := Option.isSome_iff_exists.mp hsome
    have hcond : ((!isV2 s.value && i.plaintextOk s && !startsWith s.value fernetPrefix) = true) ∧
        s.value = p := by
      unfold Secret.plaintext at hplain
      split at hplain
      · next q hq => exact absurd hq (hp q)
      · split_ifs at hplain with hcond
        exact ⟨hcond, Option.some.inj hplain⟩
    obtain ⟨hcond, rfl⟩ := hcond
    simp only [Bool.and_eq_true, Bool.not_eq_true'] at hcond
    exact ⟨hcond.1.2, hcond.1.1, hcond.2, decrypt_of_plaintext (h.plaintext.trans hplain) hv2⟩

/-- A key that decrypts nothing of it changes nothing for a value. -/
theorem decrypt_insert {keyId : KeyId} {key : K} {value : String} (hnone : find keyId = none)
    (hkey : ∀ parsed, parseV2 value = .ok parsed → F.decrypt key parsed.2 = none) :
    decrypt F (fun i => if i = keyId then some (.dek key) else find i) value =
      decrypt F find value := by
  unfold decrypt
  split_ifs with hv2
  · cases hparse : parseV2 value with
    | error error => rfl
    | ok parsed =>
      dsimp only
      split_ifs with hi
      · rw [hi, hnone]
        dsimp only
        rw [hkey parsed hparse]
      · rfl
  · rfl

theorem Moved.kept (h : Moved F find find' i s s')
    (hsame : Secrets.decrypt F find' s.value = Secrets.decrypt F find s.value) :
    Kept F find find' i s s' := by
  rcases h with rfl | ⟨p, value, hp, hsealed, rfl⟩
  · refine ⟨?_, .inl rfl⟩
    unfold Secret.plaintext
    rw [hsame]
  · exact ⟨(plaintext_of_decrypt hsealed.decrypt).trans hp.symm, .inr ⟨hsealed.isV2, hp ▸ rfl⟩⟩

end Kept

namespace Store

/-- What some operations leave as it was. -/
structure Keeps (F : Fernet K) (writes : ℤ → SecretId → Prop) (st st' : Store K) : Prop where
  find : ∀ a, Extends (st a).find (st' a).find
  rows : ∀ a i s, ¬ writes a i → (st a).secrets.lookup i = some s →
    ∃ s', (st' a).secrets.lookup i = some s' ∧ Kept F (st a).find (st' a).find i s s'
  foreign : ∀ a b i s', a ≠ b → (st' a).secrets.lookup i = some s' →
    ∀ p, decrypt F (st' b).find s'.value = .ok p →
      (st a).secrets.lookup i = some s' ∧ decrypt F (st b).find s'.value = .ok p

variable {F : Fernet K} {secretKeys : List String} {writes writes' : ℤ → SecretId → Prop}
  {st st' st'' : Store K} {c : Call K}

theorem Keeps.refl (st : Store K) : Keeps F writes st st where
  find _ := .refl _
  rows _ _ s _ hs := ⟨s, hs, .refl s⟩
  foreign _ _ _ _ _ hs _ hp := ⟨hs, hp⟩

theorem Keeps.trans (h : Keeps F writes st st') (h' : Keeps F writes' st' st'') :
    Keeps F (fun a i => writes a i ∨ writes' a i) st st'' where
  find a := (h.find a).trans (h'.find a)
  rows a i s hw hs := by
    obtain ⟨s', hs', hkept⟩ := h.rows a i s (fun hw' => hw (.inl hw')) hs
    obtain ⟨s'', hs'', hkept'⟩ := h'.rows a i s' (fun hw' => hw (.inr hw')) hs'
    exact ⟨s'', hs'', hkept.trans hkept'⟩
  foreign a b i s'' hab hs p hp := by
    obtain ⟨hs', hp'⟩ := h'.foreign a b i s'' hab hs p hp
    exact h.foreign a b i s'' hab hs' p hp'

theorem Keeps.mono (h : Keeps F writes st st') (hw : ∀ a i, writes a i → writes' a i) :
    Keeps F writes' st st' :=
  ⟨h.find, fun a i s hw' => h.rows a i s fun hw'' => hw' (hw a i hw''), h.foreign⟩

/-- A stored value is one that a new key does not decrypt. -/
theorem Fresh.decrypt (hfresh : st.Fresh F c) {a : ℤ} {i : SecretId} {s : Secret}
    (hs : (st a).secrets.lookup i = some s) {t : Tenant K}
    (hkeys : t.find = (st c.tenant).find ∨ t.find = fun i =>
      if i = c.draw.keyId then some (.dek c.draw.key) else (st c.tenant).find i) :
    Secrets.decrypt F t.find s.value = Secrets.decrypt F (st c.tenant).find s.value := by
  have hmem : (i, s) ∈ (st a).secrets := by
    obtain ⟨l₁, l₂, heq, -⟩ := List.lookup_eq_some_iff.mp hs
    rw [heq]
    exact List.mem_append_right _ List.mem_cons_self
  rcases hkeys with heq | heq <;> rw [heq]
  have hnone : (st c.tenant).find c.draw.keyId = none := by
    unfold Tenant.find
    rw [hfresh.1, Option.map_none]
  exact decrypt_insert hnone (hfresh.2.2 a (i, s) hmem)

/-- The keys after an operation are those before it, and the new one. -/
theorem find_cases {t t' : Tenant K} {draw : Draw K}
    (hkeys : t'.find = t.find ∨
      t'.find = fun i => if i = draw.keyId then some (.dek draw.key) else t.find i)
    {i : KeyId} {key : K} (h : t'.find i = some (.dek key)) :
    t.find i = some (.dek key) ∨ key = draw.key := by
  rcases hkeys with heq | heq <;> rw [heq] at h
  · exact .inl h
  · dsimp only at h
    split_ifs at h
    · exact .inr (Wrapped.dek.inj (Option.some.inj h)).symm
    · exact .inl h

variable [DecidableEq K]

/-- A call moves its own tenant, or nothing. -/
theorem call_cases (F : Fernet K) (secretKeys : List String) (st : Store K) (c : Call K) :
    st.call F secretKeys c = st ∨
    ∃ t, Tenant.Moves F c.draw (fun i => c.Writes c.tenant i) (st c.tenant) t ∧
      st.call F secretKeys c = Function.update st c.tenant t := by
  unfold Store.call
  cases hrun : c.run F secretKeys (st c.tenant) with
  | error error => exact .inl rfl
  | ok t => exact .inr ⟨t, Call.moves hrun, rfl⟩

/-- No tenant gets another's key. -/
theorem Separate.call (hsep : st.Separate) (hfresh : st.Fresh F c) :
    (st.call F secretKeys c).Separate := by
  rcases call_cases F secretKeys st c with heq | ⟨t, hmoves, heq⟩ <;> rw [heq]
  · exact hsep
  · intro a b i j key hab hi hj
    rw [Function.update_apply] at hi hj
    split_ifs at hi hj with ha hb hb
    · exact hab (ha.trans hb.symm)
    · rcases find_cases hmoves.keys hi with hi | rfl
      · exact hsep _ b i j key (ha ▸ hab) hi hj
      · exact hfresh.2.1 b j hj
    · rcases find_cases hmoves.keys hj with hj | rfl
      · exact hsep a _ i j key (hb ▸ hab) hi hj
      · exact hfresh.2.1 a i hi
    · exact hsep a b i j key hab hi hj

/-- **What one call leaves as it was.** -/
theorem keeps_call (hF : F.Authentic) (hsep : st.Separate) (hfresh : st.Fresh F c) :
    Keeps F c.Writes st (st.call F secretKeys c) := by
  have hsep' : (st.call F secretKeys c).Separate := hsep.call hfresh
  rcases call_cases F secretKeys st c with heq | ⟨t, hmoves, heq⟩
  · rw [heq]
    exact .refl st
  rw [heq] at hsep' ⊢
  have hown : Function.update st c.tenant t c.tenant = t := Function.update_self ..
  have hother {a : ℤ} (ha : a ≠ c.tenant) : Function.update st c.tenant t a = st a :=
    Function.update_of_ne ha ..
  refine ⟨fun a => ?_, fun a i s hw hs => ?_, fun a b i s' hab hs p hp => ?_⟩
  · by_cases ha : a = c.tenant
    · subst ha
      rw [hown]
      rcases hmoves.keys with hkeys | hkeys <;> rw [hkeys]
      · exact .refl _
      · intro keyId key hkey
        refine (if_neg ?_).trans hkey
        rintro rfl
        rw [Tenant.find, hfresh.1] at hkey
        cases hkey
    · rw [hother ha]
      exact .refl _
  · by_cases ha : a = c.tenant
    · subst ha
      rw [hown]
      obtain ⟨s', hs', hmoved⟩ := hmoves.rows i s hw hs
      exact ⟨s', hs', hmoved.kept (hfresh.decrypt hs hmoves.keys)⟩
    · rw [hother ha]
      exact ⟨s, hs, .refl s⟩
  · -- What is encrypted under a key of `a` is not for `b`.
    have hforeign {q : String}
        (hsealed : Sealed F (Function.update st c.tenant t a).find q s'.value) : False :=
      hsealed.decrypt_ne hF (fun i j key hi => hsep' a b i j key hab hi) p hp
    by_cases ha : a = c.tenant
    · subst ha
      rw [hother hab.symm] at hp
      rw [hown] at hs hforeign
      by_cases hw : c.Writes c.tenant i
      · obtain ⟨q, hsealed⟩ := hmoves.written i s' hw hs
        exact (hforeign hsealed).elim
      · cases hbefore : (st c.tenant).secrets.lookup i with
        | none => rw [hmoves.none i hw hbefore] at hs; cases hs
        | some s =>
          obtain ⟨s₁, hs₁, hmoved⟩ := hmoves.rows i s hw hbefore
          obtain rfl := Option.some.inj (hs₁.symm.trans hs)
          rcases hmoved with rfl | ⟨q, value, -, hsealed, rfl⟩
          · exact ⟨rfl, hp⟩
          · exact (hforeign hsealed).elim
    · rw [hother ha] at hs
      refine ⟨hs, ?_⟩
      by_cases hb : b = c.tenant
      · subst hb
        rw [hown] at hp
        exact (hfresh.decrypt hs hmoves.keys).symm.trans hp
      · rw [hother hb] at hp
        exact hp

/-- **What a run leaves as it was.** -/
theorem keeps_of_run (hF : F.Authentic) {l : List (Call K)}
    (hrun : Run (Guarded (Fresh F) (Step F secretKeys)) st l st') (hsep : st.Separate) :
    Keeps F (fun a i => ∃ c ∈ l, c.Writes a i) st st' := by
  induction hrun with
  | nil st => exact .refl st
  | @cons st st₁ st₂ c l hstep _ ih =>
    obtain ⟨hfresh, rfl⟩ := hstep
    refine ((keeps_call hF hsep hfresh).trans (ih (hsep.call hfresh))).mono fun a i hw => ?_
    rcases hw with hw | ⟨c', hc', hw⟩
    · exact ⟨c, List.mem_cons_self, hw⟩
    · exact ⟨c', List.mem_cons_of_mem _ hc', hw⟩

/-- **The life of the keys preserves the plain text** of every value that is not replaced by a new
one, and no value becomes readable for another tenant. A value that does not decrypt stays as it is,
unless it is a plain setting, which decrypts to itself afterwards. -/
theorem lifecycle (hF : F.Authentic) {l : List (Call K)}
    (hrun : Run (Guarded (Fresh F) (Step F secretKeys)) st l st') (hsep : st.Separate) :
    (∀ a i s, (∀ c ∈ l, ¬ c.Writes a i) → (st a).secrets.lookup i = some s →
      ∃ s', (st' a).secrets.lookup i = some s' ∧
        (∀ p, decrypt F (st a).find s.value = .ok p → decrypt F (st' a).find s'.value = .ok p) ∧
        ((∀ p, decrypt F (st a).find s.value ≠ .ok p) → s' = s ∨ i.plaintextOk s = true ∧
          isV2 s.value = false ∧ startsWith s.value fernetPrefix = false ∧
            decrypt F (st' a).find s'.value = .ok s.value)) ∧
      ∀ a b i s', a ≠ b → (st' a).secrets.lookup i = some s' →
        ∀ p, decrypt F (st' b).find s'.value = .ok p →
          (st a).secrets.lookup i = some s' ∧ decrypt F (st b).find s'.value = .ok p := by
  have hkeeps := keeps_of_run hF hrun hsep
  refine ⟨fun a i s hw hs => ?_, hkeeps.foreign⟩
  obtain ⟨s', hs', hkept⟩ := hkeeps.rows a i s (fun ⟨c, hc, hc'⟩ => hw c hc hc') hs
  exact ⟨s', hs', fun p hp => hkept.decrypt (hkeeps.find a) hp, hkept.eq_or_plain⟩

/-! ### Samples -/

open Vault (sampleFernet sampleKeys sampleNewKey sampleOldKey)

theorem authentic_sampleFernet : sampleFernet.Authentic := by
  intro key key' n plaintext hne
  simp [sampleFernet, hne]

/-- The password of a mail server, which was stored before such settings were encrypted. -/
def sampleSetting : SecretId := .tenantSetting "smtp_password"

def sampleCredential (key : Char) : Secret :=
  ⟨sealed sampleOldKey (sampleFernet.encrypt key 0 "password"), false⟩

/-- Two tenants with a key and a credential each; one has a plain setting as well. -/
def sampleStore : Store Char := fun a =>
  if a = 1 then ⟨sampleKeys, [(.credential 1, sampleCredential 'a'),
    (sampleSetting, ⟨"hunter2", false⟩)]⟩
  else if a = 2 then
    ⟨[(sampleOldKey, ⟨.dek 'c', 0, false⟩)], [(.credential 1, sampleCredential 'c')]⟩
  else ⟨[], []⟩

/-- The first tenant rotates its key. -/
def sampleRotation : Call Char := ⟨1, .rotate, ⟨sampleNewKey, 'b', 1⟩, fun _ => 0⟩

theorem find_sampleStore {a : ℤ} {i : KeyId} {key : Char}
    (h : (sampleStore a).find i = some (.dek key)) : a = 1 ∧ key = 'a' ∨ a = 2 ∧ key = 'c' := by
  unfold sampleStore at h
  have hone {key₀ : Char} (h : Option.map KeyRow.wrapped
      (List.lookup i [(sampleOldKey, (⟨.dek key₀, 0, false⟩ : KeyRow Char))]) = some (.dek key)) :
      key = key₀ := by
    rw [List.lookup_cons] at h
    split at h
    · exact (Wrapped.dek.inj (Option.some.inj h)).symm
    · cases h
  split_ifs at h with h₁ h₂
  · exact .inl ⟨h₁, hone h⟩
  · exact .inr ⟨h₂, hone h⟩
  · cases h

theorem separate_sampleStore : sampleStore.Separate := by
  intro a b i j key hab hi hj
  rcases find_sampleStore hi with ⟨rfl, rfl⟩ | ⟨rfl, rfl⟩ <;>
    rcases find_sampleStore hj with ⟨rfl, hkey⟩ | ⟨rfl, hkey⟩ <;>
    first
      | exact hab rfl
      | exact absurd hkey (by decide)

theorem fresh_sampleRotation : sampleStore.Fresh sampleFernet sampleRotation := by
  have hcredential (key : Char) (hne : key ≠ 'b') (parsed : KeyId × String)
      (hparse : parseV2 (sampleCredential key).value = .ok parsed) :
      sampleFernet.decrypt 'b' parsed.2 = none := by
    rw [sampleCredential, parseV2_sealed _ (sampleFernet.encrypt_ne key 0 "password")] at hparse
    obtain rfl := Except.ok.inj hparse
    exact authentic_sampleFernet key 'b' 0 "password" hne
  have hplain (parsed : KeyId × String) : parseV2 "hunter2" ≠ .ok parsed := by
    intro hparse
    have hmalformed : (match parseV2 "hunter2" with
        | .ok _ => false
        | .error _ => true) = true := by decide +kernel
    simp [hparse] at hmalformed
  refine ⟨by decide +kernel, fun a i hfind => ?_, fun a x hx parsed hparse => ?_⟩
  · rcases find_sampleStore hfind with ⟨-, hkey⟩ | ⟨-, hkey⟩ <;> exact absurd hkey (by decide)
  · unfold sampleStore at hx
    split_ifs at hx
    · rcases List.mem_pair.mp hx with rfl | rfl
      · exact hcredential 'a' (by decide) parsed hparse
      · exact absurd hparse (hplain parsed)
    · obtain rfl := List.mem_singleton.mp hx
      exact hcredential 'c' (by decide) parsed hparse
    · cases hx

theorem run_sampleRotation :
    Run (Guarded (Fresh sampleFernet) (Step sampleFernet ["smtp_password"])) sampleStore
      [sampleRotation] (sampleStore.call sampleFernet ["smtp_password"] sampleRotation) :=
  .single ⟨fresh_sampleRotation, rfl⟩

theorem lifecycle_sampleRotation : ∃ s',
    ((sampleStore.call sampleFernet ["smtp_password"] sampleRotation) 1).secrets.lookup
      (.credential 1) = some s' ∧
    decrypt sampleFernet
      ((sampleStore.call sampleFernet ["smtp_password"] sampleRotation) 1).find s'.value =
        .ok "password" := by
  obtain ⟨hrows, -⟩ := lifecycle authentic_sampleFernet run_sampleRotation separate_sampleStore
  have hwrites : ∀ c ∈ [sampleRotation], ¬ c.Writes 1 (.credential 1) := by
    rintro c hc ⟨-, p, e, hop⟩
    obtain rfl := List.mem_singleton.mp hc
    cases hop
  obtain ⟨s', hs', hkept, -⟩ := hrows 1 (.credential 1) (sampleCredential 'a') hwrites rfl
  refine ⟨s', hs', hkept "password" ?_⟩
  exact Sealed.decrypt ⟨sampleOldKey, 'a', 0, rfl, by decide +kernel⟩

/-- A plain setting does not decrypt, and is encrypted. -/
theorem plain_setting_encrypted :
    ¬∀ (K : Type) (_ : DecidableEq K) (F : Fernet K) (secretKeys : List String) (st st' : Store K)
      (l : List (Call K)), F.Authentic → Run (Guarded (Fresh F) (Step F secretKeys)) st l st' →
        st.Separate → ∀ a i s, (∀ c ∈ l, ¬ c.Writes a i) → (st a).secrets.lookup i = some s →
          (∀ p, decrypt F (st a).find s.value ≠ .ok p) → (st' a).secrets.lookup i = some s := by
  intro hall
  have hsame := hall Char _ sampleFernet ["smtp_password"] sampleStore _ _ authentic_sampleFernet
    run_sampleRotation separate_sampleStore 1 sampleSetting ⟨"hunter2", false⟩ ?_
    (by decide +kernel) ?_
  · exact absurd hsame (by decide +kernel)
  · rintro c hc ⟨-, p, e, hop⟩
    obtain rfl := List.mem_singleton.mp hc
    cases hop
  · intro p hp
    have hfails : (decrypt sampleFernet (sampleStore 1).find "hunter2").toBool = false := by
      decide +kernel
    rw [hp] at hfails
    cases hfails

end Store

end Nodeglow.Secrets
