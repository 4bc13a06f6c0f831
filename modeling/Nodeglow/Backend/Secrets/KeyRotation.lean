import Nodeglow.Backend.Secrets.TenantCipher
import Nodeglow.Foundation.Run

/-!
# The rotation of a tenant's key

A rotation creates a new active key, reads every secret of the tenant, encrypts it again in memory
and writes it back when the session is flushed; the earlier keys are retired and stay readable. At
the same time other transactions encrypt new values under the key that was active when they loaded
the keys, and write them.

The rotation reads the rows without a lock. A value that is committed between the read of a row and
its update is overwritten by the older one (`Vault.older_value_restored`). If the rotation writes a
row only as it has read it (`Vault.Unchanged`), every secret decrypts to what was last written to
it (`Vault.stored_of_expected`).

## Main results

* `Vault.Inv.step`, `Vault.stored_of_expected` — one event, and whole runs.

Source: `backend/services/tenant_keys.py`, lines 292–312, 400–441, 468–494, 517–541 and 606–642;
`backend/models/settings.py`, lines 180–200.
-/

namespace Nodeglow.Secrets

variable {K : Type}

/-- The tables with secrets, in the order in which `_secret_rows` reads them. -/
inductive SecretTable
  | integrationConfigs
  | credentials
  | tenantSettings
  deriving DecidableEq, Repr

def SecretTable.all : List SecretTable := [.integrationConfigs, .credentials, .tenantSettings]

def SecretId.table : SecretId → SecretTable
  | .integrationConfig _ => .integrationConfigs
  | .credential _ => .credentials
  | .tenantSetting _ => .tenantSettings

/-- The rows that `_secret_rows` selects; the settings that are always secret are given. -/
def SecretId.selected (secretKeys : List String) (i : SecretId) (s : Secret) : Bool :=
  match i with
  | .tenantSetting key => s.encrypted || key ∈ secretKeys
  | _ => true

/-- Where a transaction is. -/
inductive Stage (K : Type)
  | idle
  /-- A transaction with the tenant's cipher, and what it has written. -/
  | writing (cipher : KeySet K) (done : List (SecretId × String))
  /-- A rotation, with the tables that it has still to read. -/
  | rotating (old cipher : KeySet K) (previous : List KeyId) (tables : List SecretTable)
      (rows : List (SecretId × Secret))
  /-- A rotation, with the rows that it has still to write: as they were read, and the new values.
  -/
  | flushing (old cipher : KeySet K) (previous : List KeyId)
      (pending : List (SecretId × Secret × String))
  /-- A rotation whose caller commits next. -/
  | rotated
  | ended

/-- The keys that a transaction holds. -/
def Stage.keySets : Stage K → List (KeySet K)
  | .writing cipher _ => [cipher]
  | .rotating old cipher _ _ _ | .flushing old cipher _ _ => [old, cipher]
  | _ => []

/-- The rows that a rotation has still to write hold what it has read. -/
def Stage.Converts (F : Fernet K) : Stage K → Prop
  | .flushing old cipher _ pending =>
      ∀ x ∈ pending, ∃ p, x.2.1.plaintext F old.find x.1 = some p ∧
        ∀ g, Extends cipher.find g → decrypt F g x.2.2 = .ok p
  | _ => True

structure Vault (K : Type) where
  keys : Table ℕ KeyId (KeyRow K)
  secrets : Table ℕ SecretId Secret
  stages : ℕ → Stage K
  /-- The plain text that was last written to a secret. -/
  expected : SecretId → Option String

inductive Event (K : Type)
  /-- `tenant_cipher` for a write; the new key is for a tenant without one. -/
  | begin (k : ℕ) (keyId : KeyId) (key : K) (now : ℚ)
  /-- `encrypt_secret`, and the flush of the row. -/
  | put (k : ℕ) (i : SecretId) (plaintext : String) (n : ℕ) (encrypted : Bool)
  /-- `rotate_tenant_key`, to the new key. -/
  | rotate (k : ℕ) (keyId : KeyId) (key : K) (now : ℚ)
  | select (k : ℕ)
  | reencrypt (k : ℕ) (n : SecretId → ℕ)
  | update (k : ℕ) (i : SecretId)
  | retire (k : ℕ)
  | commit (k : ℕ)
  | abort (k : ℕ)

namespace Vault

section Model

variable [DecidableEq K] (F : Fernet K) (secretKeys : List String) (w : Vault K)

def setStage (k : ℕ) (stage : Stage K) : Vault K :=
  { w with stages := Function.update w.stages k stage }

/-- The keys that transaction `k` sees. -/
def view (k : ℕ) (keyId : KeyId) : Option (Wrapped K) := (w.keys.lookup k keyId).map KeyRow.wrapped

/-- The committed keys. -/
def keyring (keyId : KeyId) : Option (Wrapped K) := (w.keys.committed keyId).map KeyRow.wrapped

/-- `_load`. -/
def load (k : ℕ) : KeySet K := KeySet.load w.keys.keys (w.keys.lookup k)

/-- `_create`; a key row of that name must not exist. -/
def create (k : ℕ) (keyId : KeyId) (key : K) (now : ℚ) : Option (Vault K) :=
  if w.keys.lookup k keyId = none then
    (w.keys.write k keyId fun _ => some ⟨.dek key, now, false⟩).map fun keys =>
      { w with keys := keys }
  else none

/-- The keys that a rotation retires: all but the destroyed ones. -/
def previousKeys (k : ℕ) : List KeyId :=
  w.keys.keys.filter fun i => (w.view k i).any fun wrapped => wrapped ≠ .destroyed

/-- The rows of one table that `_secret_rows` finds. -/
def secretRows (k : ℕ) (table : SecretTable) : List (SecretId × Secret) :=
  w.secrets.keys.filterMap fun i =>
    if i.table = table then
      ((w.secrets.lookup k i).filter (i.selected secretKeys)).map fun s => (i, s)
    else none

/-- The rows that `_reencrypt` changes, with their new values. -/
def converted (old cipher : KeySet K) (n : SecretId → ℕ) :
    List (SecretId × Secret) → Except KeyError (List (SecretId × Secret × String))
  | [] => .ok []
  | (i, s) :: rows =>
      match s.reencrypt F old.find i cipher (n i), converted old cipher n rows with
      | .error error, _ => .error error
      | .ok _, .error error => .error error
      | .ok (.converted value), .ok rest => .ok ((i, s, value) :: rest)
      | .ok _, .ok rest => .ok rest

/-- The plain texts that are expected once transaction `k` has committed. -/
def expectedAfter (k : ℕ) (i : SecretId) : Option String :=
  match w.stages k with
  | .writing _ done => done.lookup i <|> w.expected i
  | _ => w.expected i

/-- One event; it has no value where the event cannot happen. -/
def step : Event K → Option (Vault K)
  | .begin k keyId key now =>
      match w.stages k with
      | .idle =>
          let ks := w.load k
          if ks.active.isSome then some (w.setStage k (.writing ks []))
          else if ks.destroyed then none
          else (w.create k keyId key now).map fun w' =>
            w'.setStage k (.writing (ks.withNew keyId key) [])
      | _ => none
  | .put k i plaintext n encrypted =>
      match w.stages k with
      | .writing cipher done =>
          match encrypt F cipher n plaintext with
          | .error _ => none
          | .ok value =>
              (w.secrets.write k i fun _ => some ⟨value, encrypted⟩).map fun secrets =>
                { w with secrets := secrets }.setStage k (.writing cipher ((i, plaintext) :: done))
      | _ => none
  | .rotate k keyId key now =>
      match w.stages k with
      | .idle =>
          let ks := w.load k
          if ks.active.isNone ∧ ks.destroyed then none
          else (w.create k keyId key now).map fun w' =>
            w'.setStage k
              (.rotating ks (ks.withNew keyId key) (w.previousKeys k) SecretTable.all [])
      | _ => none
  | .select k =>
      match w.stages k with
      | .rotating old cipher previous (table :: tables) rows =>
          some (w.setStage k
            (.rotating old cipher previous tables (rows ++ w.secretRows secretKeys k table)))
      | _ => none
  | .reencrypt k n =>
      match w.stages k with
      | .rotating old cipher previous [] rows =>
          match converted F old cipher n rows with
          | .error _ => none
          | .ok pending => some (w.setStage k (.flushing old cipher previous pending))
      | _ => none
  | .update k i =>
      match w.stages k with
      | .flushing old cipher previous pending =>
          match pending.lookup i, w.secrets.lookup k i with
          | some (_, value), some _ =>
              (w.secrets.write k i (Option.map fun s => { s with value := value })).map
                fun secrets =>
                  { w with secrets := secrets }.setStage k
                    (.flushing old cipher previous (pending.filter fun x => x.1 ≠ i))
          | _, _ => none
      | _ => none
  | .retire k =>
      match w.stages k with
      | .flushing _ _ previous [] =>
          (w.keys.updateWhere k (fun i row => i ∈ previous && !row.retired)
              fun row => some { row with retired := true }).map
            fun keys => { w with keys := keys }.setStage k .rotated
      | _ => none
  | .commit k =>
      match w.stages k with
      | .writing _ _ | .rotated =>
          some ({ w with
            keys := w.keys.commit k
            secrets := w.secrets.commit k
            expected := w.expectedAfter k }.setStage k .ended)
      | _ => none
  | .abort k =>
      some ({ w with
        keys := w.keys.rollback k
        secrets := w.secrets.rollback k }.setStage k .ended)

/-- The transition relation of `Vault.step`. -/
def Step (w : Vault K) (e : Event K) (w' : Vault K) : Prop := w.step F secretKeys e = some w'

/-- The plain text of a committed secret. -/
def stored (i : SecretId) : Option String :=
  (w.secrets.committed i).bind fun s => s.plaintext F w.keyring i

/-- Key rows and secrets that nobody has locked; what they hold is expected. -/
def init (keys : List (KeyId × KeyRow K)) (secrets : List (SecretId × Secret)) : Vault K where
  keys := .ofList keys
  secrets := .ofList secrets
  stages _ := .idle
  expected i := (secrets.lookup i).bind fun s =>
    s.plaintext F (fun keyId => (keys.lookup keyId).map KeyRow.wrapped) i

/-- **What the rotation relies on.** A row is written as it was read: nothing has been committed to
it in between. -/
def Unchanged (w : Vault K) : Event K → Prop
  | .update k i =>
      match w.stages k with
      | .flushing _ _ _ pending => ∀ x ∈ pending.lookup i, w.secrets.committed i = some x.1
      | _ => True
  | _ => True

end Model

/-! ### The invariant -/

variable {F : Fernet K} {secretKeys : List String} {w w' : Vault K}

structure Inv (F : Fernet K) (w : Vault K) : Prop where
  /-- Every secret holds what is expected. -/
  stored : ∀ i p, w.expected i = some p →
    ∃ s, w.secrets.committed i = some s ∧ s.plaintext F w.keyring i = some p
  /-- A transaction changes no key that exists. -/
  kept : ∀ k keyId row, w.keys.writer keyId = some k → w.keys.committed keyId = some row →
    ∃ row', w.keys.lookup k keyId = some row' ∧ row'.wrapped = row.wrapped
  /-- A transaction sees the keys that it holds. -/
  held : ∀ k, ∀ ks ∈ (w.stages k).keySets, Extends ks.find (w.view k)
  /-- A row that a transaction has written holds what is expected after its commit. -/
  written : ∀ k i, w.secrets.writer i = some k → ∃ s, w.secrets.lookup k i = some s ∧
    ∀ p, w.expectedAfter k i = some p → s.plaintext F (w.view k) i = some p
  locked : ∀ k cipher done i, w.stages k = .writing cipher done → (done.lookup i).isSome →
    w.secrets.writer i = some k
  converts : ∀ k, (w.stages k).Converts F

/-- A transaction sees the committed keys. -/
theorem Inv.extends_view (h : w.Inv F) (k : ℕ) : Extends w.keyring (w.view k) := by
  intro keyId key hkey
  by_cases hwriter : w.keys.writer keyId = some k
  · obtain ⟨row, hrow, hwrapped⟩ := Option.map_eq_some_iff.mp hkey
    obtain ⟨row', hrow', heq⟩ := h.kept k keyId row hwriter hrow
    rw [view, hrow', Option.map_some, heq, hwrapped]
  · rw [view, Table.lookup_of_writer_ne hwriter]
    exact hkey

theorem stages_setStage (w : Vault K) (k : ℕ) (stage : Stage K) (j : ℕ) :
    (w.setStage k stage).stages j = if j = k then stage else w.stages j := by
  simp [setStage, Function.update_apply]

theorem expectedAfter_congr {j : ℕ} {i : SecretId} (hstage : w'.stages j = w.stages j)
    (hexpected : w'.expected i = w.expected i) : w'.expectedAfter j i = w.expectedAfter j i := by
  unfold expectedAfter
  rw [hstage]
  split <;> rw [hexpected]

theorem expectedAfter_setStage (w : Vault K) (k : ℕ) (stage : Stage K) (i : SecretId)
    (hstage : ∀ cipher done, stage ≠ .writing cipher done) :
    (w.setStage k stage).expectedAfter k i = w.expected i := by
  unfold expectedAfter
  rw [stages_setStage, if_pos rfl]
  cases stage with
  | writing cipher done => exact absurd rfl (hstage cipher done)
  | _ => rfl

theorem expectedAfter_setStage_writing (w : Vault K) (k : ℕ) (cipher : KeySet K)
    (done : List (SecretId × String)) (i : SecretId) :
    (w.setStage k (.writing cipher done)).expectedAfter k i = (done.lookup i <|> w.expected i) := by
  unfold expectedAfter
  rw [stages_setStage, if_pos rfl]
  rfl

theorem inv_init (keys : List (KeyId × KeyRow K)) (secrets : List (SecretId × Secret)) :
    (init F keys secrets).Inv F where
  stored i p hp := by
    obtain ⟨s, hs, hplain⟩ := Option.bind_eq_some_iff.mp hp
    exact ⟨s, hs, hplain⟩
  kept k keyId row hw := by cases hw
  held k ks hks := by cases hks
  written k i hw := by cases hw
  locked k cipher done i hk := by cases hk
  converts k := trivial

/-- A transaction gets on, and commits nothing. -/
theorem Inv.advance (h : w.Inv F) {k : ℕ} {keys : Table ℕ KeyId (KeyRow K)}
    {secrets : Table ℕ SecretId Secret} {stage : Stage K}
    (hw' : w' = { w with keys := keys, secrets := secrets }.setStage k stage)
    (hkeys : Table.Local k w.keys keys) (hsecrets : Table.Local k w.secrets secrets)
    (hkept : ∀ keyId row, keys.writer keyId = some k → w.keys.committed keyId = some row →
      ∃ row', keys.lookup k keyId = some row' ∧ row'.wrapped = row.wrapped)
    (hheld : ∀ ks ∈ stage.keySets, Extends ks.find (w'.view k))
    (hwritten : ∀ i, secrets.writer i = some k → ∃ s, secrets.lookup k i = some s ∧
      ∀ p, w'.expectedAfter k i = some p → s.plaintext F (w'.view k) i = some p)
    (hlocked : ∀ cipher done i, stage = .writing cipher done → (done.lookup i).isSome →
      secrets.writer i = some k)
    (hconverts : stage.Converts F) : w'.Inv F := by
  subst hw'
  have hring : keyring ({ w with keys := keys, secrets := secrets }.setStage k stage) =
      w.keyring := by
    funext keyId
    exact congrArg _ (hkeys.committed keyId)
  have hview {j : ℕ} (hj : j ≠ k) :
      view ({ w with keys := keys, secrets := secrets }.setStage k stage) j = w.view j := by
    funext keyId
    exact congrArg _ (hkeys.lookup j hj keyId)
  have hafter {j : ℕ} (hj : j ≠ k) :
      expectedAfter ({ w with keys := keys, secrets := secrets }.setStage k stage) j =
        w.expectedAfter j := by
    funext i
    refine expectedAfter_congr ?_ rfl
    rw [stages_setStage, if_neg hj]
  refine ⟨fun i p hp => ?_, fun j keyId row hj hrow => ?_, fun j ks hks => ?_, fun j i hj => ?_,
    fun j cipher done i hj hi => ?_, fun j => ?_⟩
  · rw [hring]
    obtain ⟨s, hs, hplain⟩ := h.stored i p hp
    exact ⟨s, (hsecrets.committed i).trans hs, hplain⟩
  · have hrow' : w.keys.committed keyId = some row := (hkeys.committed keyId).symm.trans hrow
    by_cases hjk : j = k
    · exact hjk ▸ hkept keyId row (hjk ▸ hj) hrow'
    · obtain ⟨row', hlookup, heq⟩ := h.kept j keyId row ((hkeys.writer j hjk keyId).mp hj) hrow'
      exact ⟨row', (hkeys.lookup j hjk keyId).trans hlookup, heq⟩
  · rw [stages_setStage] at hks
    split_ifs at hks with hjk
    · exact hjk ▸ hheld ks hks
    · rw [hview hjk]
      exact h.held j ks hks
  · by_cases hjk : j = k
    · subst hjk
      exact hwritten i hj
    · obtain ⟨s, hs, hplain⟩ := h.written j i ((hsecrets.writer j hjk i).mp hj)
      refine ⟨s, (hsecrets.lookup j hjk i).trans hs, fun p hp => ?_⟩
      rw [hview hjk]
      exact hplain p (hafter hjk ▸ hp)
  · rw [stages_setStage] at hj
    split_ifs at hj with hjk
    · exact hjk ▸ hlocked cipher done i hj hi
    · exact (hsecrets.writer j hjk i).mpr (h.locked j cipher done i hj hi)
  · rw [stages_setStage]
    split_ifs
    · exact hconverts
    · exact h.converts j

/-- A transaction gets on without touching the secrets. -/
theorem Inv.advance_keys (h : w.Inv F) {k : ℕ} {keys : Table ℕ KeyId (KeyRow K)} {stage : Stage K}
    (hw' : w' = { w with keys := keys }.setStage k stage) (hkeys : Table.Local k w.keys keys)
    (hkept : ∀ keyId row, keys.writer keyId = some k → w.keys.committed keyId = some row →
      ∃ row', keys.lookup k keyId = some row' ∧ row'.wrapped = row.wrapped)
    (hview : Extends (w.view k) (w'.view k))
    (hafter : ∀ i, w'.expectedAfter k i = w.expectedAfter k i)
    (hheld : ∀ ks ∈ stage.keySets, Extends ks.find (w'.view k))
    (hlocked : ∀ cipher done i, stage = .writing cipher done → (done.lookup i).isSome →
      w.secrets.writer i = some k)
    (hconverts : stage.Converts F) : w'.Inv F := by
  refine h.advance hw' hkeys (Table.Local.refl k w.secrets) hkept hheld (fun i hi => ?_) hlocked
    hconverts
  obtain ⟨s, hs, hplain⟩ := h.written k i hi
  exact ⟨s, hs, fun p hp => Secret.plaintext_mono hview (hplain p (hafter i ▸ hp))⟩

/-- A transaction gets on, and changes nothing. -/
theorem Inv.setStage (h : w.Inv F) {k : ℕ} {stage : Stage K}
    (hafter : ∀ i, (w.setStage k stage).expectedAfter k i = w.expectedAfter k i)
    (hheld : ∀ ks ∈ stage.keySets, Extends ks.find (w.view k))
    (hlocked : ∀ cipher done i, stage = .writing cipher done → (done.lookup i).isSome →
      w.secrets.writer i = some k)
    (hconverts : stage.Converts F) : (w.setStage k stage).Inv F :=
  h.advance_keys rfl (Table.Local.refl k w.keys) (h.kept k) (Extends.refl _) hafter hheld hlocked
    hconverts

/-- What the creation of a key does. -/
theorem Inv.create [DecidableEq K] (h : w.Inv F) {k : ℕ} {keyId : KeyId} {key : K} {now : ℚ}
    (hcreate : w.create k keyId key now = some w') :
    ∃ keys, w' = { w with keys := keys } ∧ Table.Local k w.keys keys ∧
      (∀ keyId' row, keys.writer keyId' = some k → w.keys.committed keyId' = some row →
        ∃ row', keys.lookup k keyId' = some row' ∧ row'.wrapped = row.wrapped) ∧
      Extends ((w.load k).withNew keyId key).find (w'.view k) ∧ Extends (w.view k) (w'.view k) := by
  unfold Vault.create at hcreate
  split_ifs at hcreate with hnone
  obtain ⟨keys, hwrite, rfl⟩ := Option.map_eq_some_iff.mp hcreate
  have hother {keyId' : KeyId} (hne : keyId' ≠ keyId) :
      keys.lookup k keyId' = w.keys.lookup k keyId' :=
    Table.lookup_of_write_of_ne hwrite hne k
  refine ⟨keys, rfl, Table.local_of_write hwrite, fun keyId' row hwriter hrow => ?_,
    fun keyId' key' hfind => ?_, fun keyId' key' hfind => ?_⟩
  · by_cases heq : keyId' = keyId
    · -- the name was free
      subst heq
      rcases Table.writer_of_write_eq_some hwrite with hw | hw
      · have hne : w.keys.writer keyId' ≠ some k := by simp [hw]
        rw [Table.lookup_of_writer_ne hne, hrow] at hnone
        cases hnone
      · obtain ⟨row', hrow', -⟩ := h.kept k keyId' row hw hrow
        rw [hnone] at hrow'
        cases hrow'
    · rw [Table.writer_of_write hwrite, if_neg heq] at hwriter
      rw [hother heq]
      exact h.kept k keyId' row hwriter hrow
  · by_cases heq : keyId' = keyId
    · subst heq
      have hkey : some (Wrapped.dek key) = some (.dek key') := by
        simpa [KeySet.withNew] using hfind
      change (keys.lookup k keyId').map KeyRow.wrapped = _
      rw [Table.lookup_of_write hwrite, Option.map_some]
      exact hkey
    · change (keys.lookup k keyId').map KeyRow.wrapped = _
      rw [hother heq]
      simpa [KeySet.withNew, heq, load, KeySet.load] using hfind
  · by_cases heq : keyId' = keyId
    · subst heq
      rw [view, hnone] at hfind
      cases hfind
    · change (keys.lookup k keyId').map KeyRow.wrapped = _
      rw [hother heq]
      exact hfind

/-- What a value that decrypts holds as a secret. -/
theorem plaintext_of_decrypt {find : KeyId → Option (Wrapped K)} {value p : String}
    (h : decrypt F find value = .ok p) (encrypted : Bool) (i : SecretId) :
    Secret.plaintext F find i ⟨value, encrypted⟩ = some p := by
  simp [Secret.plaintext, h]

/-- A transaction writes a new value. -/
theorem Inv.put (h : w.Inv F) {k : ℕ} {cipher : KeySet K} {done : List (SecretId × String)}
    {i : SecretId} {plaintext value : String} {n : ℕ} {encrypted : Bool}
    {secrets : Table ℕ SecretId Secret} (hstage : w.stages k = .writing cipher done)
    (hencrypt : encrypt F cipher n plaintext = .ok value)
    (hwrite : w.secrets.write k i (fun _ => some ⟨value, encrypted⟩) = some secrets) :
    ({ w with secrets := secrets }.setStage k
      (.writing cipher ((i, plaintext) :: done))).Inv F := by
  have hheld : Extends cipher.find (w.view k) := h.held k cipher (by simp [hstage, Stage.keySets])
  refine h.advance rfl (Table.Local.refl k w.keys) (Table.local_of_write hwrite) (h.kept k) ?_ ?_ ?_
    trivial
  · intro ks hks
    obtain rfl := List.mem_singleton.mp hks
    exact hheld
  · intro j hj
    by_cases hji : j = i
    · subst hji
      refine ⟨_, Table.lookup_of_write hwrite, fun p hp => ?_⟩
      obtain rfl : plaintext = p := by
        simpa [expectedAfter_setStage_writing] using hp
      exact plaintext_of_decrypt (decrypt_of_encrypt F hencrypt hheld) encrypted j
    · rw [Table.writer_of_write hwrite, if_neg hji] at hj
      obtain ⟨s, hs, hplain⟩ := h.written k j hj
      refine ⟨s, (Table.lookup_of_write_of_ne hwrite hji k).trans hs, fun p hp => hplain p ?_⟩
      have hne : (j == i) = false := by simpa using hji
      rw [expectedAfter_setStage_writing, List.lookup_cons, hne] at hp
      rw [expectedAfter, hstage]
      exact hp
  · intro cipher' done' j heq hj
    obtain ⟨rfl, rfl⟩ := Stage.writing.inj heq
    rw [Table.writer_of_write hwrite]
    split_ifs with hji
    · rfl
    · have hne : (j == i) = false := by simpa using hji
      rw [List.lookup_cons, hne] at hj
      exact h.locked k cipher done j hstage hj

/-- The rotation writes a row as it has read it. -/
theorem Inv.update (h : w.Inv F) {k : ℕ} {old cipher : KeySet K} {previous : List KeyId}
    {pending : List (SecretId × Secret × String)} {i : SecretId} {s current : Secret}
    {value : String} {secrets : Table ℕ SecretId Secret}
    (hstage : w.stages k = .flushing old cipher previous pending)
    (hpending : pending.lookup i = some (s, value)) (hread : w.secrets.committed i = some s)
    (hcurrent : w.secrets.lookup k i = some current)
    (hwrite : w.secrets.write k i (Option.map fun s => { s with value := value }) = some secrets) :
    ({ w with secrets := secrets }.setStage k
      (.flushing old cipher previous (pending.filter fun x => x.1 ≠ i))).Inv F := by
  have hold : Extends old.find (w.view k) := h.held k old (by simp [hstage, Stage.keySets])
  have hnew : Extends cipher.find (w.view k) := h.held k cipher (by simp [hstage, Stage.keySets])
  have hconverts := h.converts k
  rw [hstage] at hconverts
  refine h.advance rfl (Table.Local.refl k w.keys) (Table.local_of_write hwrite) (h.kept k) ?_ ?_
    (by simp) ?_
  · intro ks hks
    exact h.held k ks (by rw [hstage]; exact hks)
  · intro j hj
    by_cases hji : j = i
    · subst hji
      refine ⟨{ current with value := value }, ?_, fun p hp => ?_⟩
      · rw [Table.lookup_of_write hwrite, hcurrent]
        rfl
      · -- the row holds what is expected, and so does the value that was read
        rw [expectedAfter_setStage _ _ _ _ (by simp)] at hp
        obtain ⟨s', hs', hplain⟩ := h.stored j p hp
        obtain rfl := Option.some.inj (hread.symm.trans hs')
        have hmem : (j, s, value) ∈ pending := by
          obtain ⟨l, l', hl, -⟩ := List.lookup_eq_some_iff.mp hpending
          rw [hl]
          exact List.mem_append_right l List.mem_cons_self
        obtain ⟨q, hq, hvalue⟩ := hconverts (j, s, value) hmem
        have hview := Secret.plaintext_mono (h.extends_view k) hplain
        rw [Secret.plaintext_mono hold hq] at hview
        obtain rfl := Option.some.inj hview
        exact plaintext_of_decrypt (hvalue _ hnew) current.encrypted j
    · rw [Table.writer_of_write hwrite, if_neg hji] at hj
      obtain ⟨s', hs', hplain⟩ := h.written k j hj
      refine ⟨s', (Table.lookup_of_write_of_ne hwrite hji k).trans hs', fun p hp => hplain p ?_⟩
      rw [expectedAfter_setStage _ _ _ _ (by simp)] at hp
      rw [expectedAfter, hstage]
      exact hp
  · intro x hx
    exact hconverts x (List.mem_filter.mp hx).1

/-- The rotation retires the earlier keys. -/
theorem Inv.retire (h : w.Inv F) {k : ℕ} {old cipher : KeySet K} {previous : List KeyId}
    {pending : List (SecretId × Secret × String)} {keys : Table ℕ KeyId (KeyRow K)}
    (hstage : w.stages k = .flushing old cipher previous pending)
    (hupdate : w.keys.updateWhere k (fun i row => i ∈ previous && !row.retired)
      (fun row => some { row with retired := true }) = some keys) :
    ({ w with keys := keys }.setStage k .rotated).Inv F := by
  have hwrapped (keyId : KeyId) :
      (keys.lookup k keyId).map KeyRow.wrapped = (w.keys.lookup k keyId).map KeyRow.wrapped := by
    rw [Table.lookup_of_updateWhere hupdate]
    split_ifs
    · cases w.keys.lookup k keyId <;> rfl
    · rfl
  refine h.advance_keys rfl (Table.local_of_updateWhere hupdate) (fun keyId row hwriter hrow => ?_)
    (fun keyId key hkey => (hwrapped keyId).trans hkey) (fun i => ?_) (by simp [Stage.keySets])
    (by simp) trivial
  · have hsame : (w.keys.lookup k keyId).map KeyRow.wrapped = some row.wrapped := by
      by_cases hw : w.keys.writer keyId = some k
      · obtain ⟨row', hrow', heq⟩ := h.kept k keyId row hw hrow
        rw [hrow', Option.map_some, heq]
      · rw [Table.lookup_of_writer_ne hw, hrow, Option.map_some]
    obtain ⟨row', hrow', heq⟩ := Option.map_eq_some_iff.mp ((hwrapped keyId).trans hsame)
    exact ⟨row', hrow', heq⟩
  · rw [expectedAfter_setStage _ _ _ _ (by simp), expectedAfter, hstage]

/-- A transaction is rolled back. -/
theorem Inv.abort (h : w.Inv F) (k : ℕ) :
    ({ w with
      keys := w.keys.rollback k
      secrets := w.secrets.rollback k }.setStage k .ended).Inv F := by
  -- the transaction has no lock any more
  have hkeys (keyId : KeyId) : (w.keys.rollback k).writer keyId ≠ some k :=
    fun hw => (Row.ended_rollback.writer hw).1 rfl
  have hsecrets (i : SecretId) : (w.secrets.rollback k).writer i ≠ some k :=
    fun hw => (Row.ended_rollback.writer hw).1 rfl
  exact h.advance rfl (Table.local_rollback k w.keys) (Table.local_rollback k w.secrets)
    (fun keyId _ hw => absurd hw (hkeys keyId)) (by simp [Stage.keySets])
    (fun i hw => absurd hw (hsecrets i)) (by simp) trivial

/-- What a rotation is going to write holds what it has read. -/
theorem plaintext_of_converted {old cipher : KeySet K} {n : SecretId → ℕ}
    {rows : List (SecretId × Secret)} {pending : List (SecretId × Secret × String)}
    (h : converted F old cipher n rows = .ok pending) :
    ∀ x ∈ pending, ∃ p, x.2.1.plaintext F old.find x.1 = some p ∧
      ∀ g, Extends cipher.find g → decrypt F g x.2.2 = .ok p := by
  induction rows generalizing pending with
  | nil =>
    obtain rfl := Except.ok.inj h
    simp
  | cons row rows ih =>
    obtain ⟨i, s⟩ := row
    unfold converted at h
    split at h
    · cases h
    · cases h
    · next value rest hvalue hrest =>
      obtain rfl := Except.ok.inj h
      intro x hx
      rcases List.mem_cons.mp hx with rfl | hx
      · obtain ⟨p, hp, hencrypt⟩ := Secret.exists_plaintext_of_converted hvalue
        exact ⟨p, hp, fun g hg => decrypt_of_encrypt F hencrypt hg⟩
      · exact ih hrest x hx
    · next rest _ _ hrest =>
      obtain rfl := Except.ok.inj h
      exact ih hrest

/-- The commit of a transaction. -/
theorem Inv.commit (h : w.Inv F) (k : ℕ) :
    ({ w with
      keys := w.keys.commit k
      secrets := w.secrets.commit k
      expected := w.expectedAfter k }.setStage k .ended).Inv F := by
  have hring : keyring ({ w with
      keys := w.keys.commit k
      secrets := w.secrets.commit k
      expected := w.expectedAfter k }.setStage k .ended) = w.view k := by
    funext keyId
    refine congrArg (Option.map KeyRow.wrapped) ((Table.committed_commit w.keys k keyId).trans ?_)
    split_ifs with hw
    · rfl
    · exact (Table.lookup_of_writer_ne hw).symm
  -- the others see the new keys, and keep their own
  have hview (j : ℕ) : Extends (w.view j) (view ({ w with
      keys := w.keys.commit k
      secrets := w.secrets.commit k
      expected := w.expectedAfter k }.setStage k .ended) j) := by
    intro keyId key hkey
    change ((w.keys.commit k).lookup j keyId).map KeyRow.wrapped = _
    rw [Table.lookup_commit]
    split_ifs with hw
    · by_cases hjk : j = k
      · exact hjk ▸ hkey
      · have hne : w.keys.writer keyId ≠ some j := by simpa [hw] using Ne.symm hjk
        rw [view, Table.lookup_of_writer_ne hne] at hkey
        exact h.extends_view k keyId key hkey
    · exact hkey
  -- a secret that another transaction has locked is expected as before
  have hafter {j : ℕ} {i : SecretId} (hjk : j ≠ k) (hj : w.secrets.writer i = some j) :
      w.expectedAfter k i = w.expected i := by
    unfold expectedAfter
    split
    · next cipher done hstage =>
      cases hlookup : done.lookup i with
      | none => rfl
      | some p =>
        have hk := h.locked k cipher done i hstage (by simp [hlookup])
        exact absurd (Option.some.inj (hj.symm.trans hk)) hjk
    · rfl
  refine ⟨fun i p hp => ?_, fun j keyId row hj hrow => ?_, fun j ks hks => ?_, fun j i hj => ?_,
    fun j cipher done i hj hi => ?_, fun j => ?_⟩
  · rw [hring]
    change ∃ s, (w.secrets.commit k).committed i = some s ∧ _
    rw [Table.committed_commit]
    split_ifs with hw
    · obtain ⟨s, hs, hplain⟩ := h.written k i hw
      exact ⟨s, hs, hplain p hp⟩
    · have hp' : w.expected i = some p := by
        change w.expectedAfter k i = some p at hp
        unfold expectedAfter at hp
        split at hp
        · next cipher done hstage =>
          cases hlookup : done.lookup i with
          | none => simpa [hlookup] using hp
          | some q => exact absurd (h.locked k cipher done i hstage (by simp [hlookup])) hw
        · exact hp
      obtain ⟨s, hs, hplain⟩ := h.stored i p hp'
      exact ⟨s, hs, Secret.plaintext_mono (h.extends_view k) hplain⟩
  · change (w.keys.commit k).writer keyId = some j at hj
    change (w.keys.commit k).committed keyId = some row at hrow
    change ∃ row', (w.keys.commit k).lookup j keyId = some row' ∧ _
    rw [Table.writer_commit] at hj
    split_ifs at hj with hw
    rw [Table.committed_commit, if_neg hw] at hrow
    rw [Table.lookup_commit, if_neg hw]
    exact h.kept j keyId row hj hrow
  · rw [stages_setStage] at hks
    split_ifs at hks
    · cases hks
    · exact (h.held j ks hks).trans (hview j)
  · change (w.secrets.commit k).writer i = some j at hj
    change ∃ s, (w.secrets.commit k).lookup j i = some s ∧ _
    rw [Table.writer_commit] at hj
    split_ifs at hj with hw
    have hjk : j ≠ k := by
      rintro rfl
      exact hw hj
    rw [Table.lookup_commit, if_neg hw]
    obtain ⟨s, hs, hplain⟩ := h.written j i hj
    refine ⟨s, hs, fun p hp => Secret.plaintext_mono (hview j) (hplain p ?_)⟩
    rw [← hp]
    refine (expectedAfter_congr ?_ (hafter hjk hj)).symm
    rw [stages_setStage, if_neg hjk]
  · rw [stages_setStage] at hj
    split_ifs at hj with hjk
    have hj' := h.locked j cipher done i hj hi
    change (w.secrets.commit k).writer i = some j
    rw [Table.writer_commit, if_neg, hj']
    simpa [hj'] using hjk
  · rw [stages_setStage]
    split_ifs
    · trivial
    · exact h.converts j

/-- **One event.** -/
theorem Inv.step [DecidableEq K] {e : Event K} (h : w.Inv F) (hunchanged : w.Unchanged e)
    (hstep : w.Step F secretKeys e w') : w'.Inv F := by
  unfold Step Vault.step at hstep
  cases e with
  | begin k keyId key now =>
    simp only at hstep
    split at hstep
    · next hstage =>
      have hidle (i : SecretId) : w.expectedAfter k i = w.expected i := by
        rw [expectedAfter, hstage]
      split_ifs at hstep
      · obtain rfl := Option.some.inj hstep
        refine h.setStage (fun i => ?_) ?_ ?_ trivial
        · rw [expectedAfter_setStage_writing, hidle]
          rfl
        · intro ks hks
          obtain rfl := List.mem_singleton.mp hks
          exact Extends.refl _
        · intro cipher done i heq hi
          obtain ⟨-, rfl⟩ := Stage.writing.inj heq
          cases hi
      · obtain ⟨w₁, hcreate, rfl⟩ := Option.map_eq_some_iff.mp hstep
        obtain ⟨keys, rfl, hlocal, hkept, hnew, hview⟩ := h.create hcreate
        refine h.advance_keys rfl hlocal hkept hview (fun i => ?_) ?_ ?_ trivial
        · rw [expectedAfter_setStage_writing, hidle]
          rfl
        · intro ks hks
          obtain rfl := List.mem_singleton.mp hks
          exact hnew
        · intro cipher done i heq hi
          obtain ⟨-, rfl⟩ := Stage.writing.inj heq
          cases hi
    · cases hstep
  | put k i plaintext n encrypted =>
    simp only at hstep
    split at hstep
    · next cipher done hstage =>
      split at hstep
      · cases hstep
      · next value hencrypt =>
        obtain ⟨secrets, hwrite, rfl⟩ := Option.map_eq_some_iff.mp hstep
        exact h.put hstage hencrypt hwrite
    · cases hstep
  | rotate k keyId key now =>
    simp only at hstep
    split at hstep
    · next hstage =>
      split_ifs at hstep
      obtain ⟨w₁, hcreate, rfl⟩ := Option.map_eq_some_iff.mp hstep
      obtain ⟨keys, rfl, hlocal, hkept, hnew, hview⟩ := h.create hcreate
      refine h.advance_keys rfl hlocal hkept hview (fun i => ?_) ?_ (by simp) trivial
      · rw [expectedAfter_setStage _ _ _ _ (by simp), expectedAfter, hstage]
      · intro ks hks
        rcases List.mem_cons.mp hks with rfl | hks
        · exact hview
        · obtain rfl := List.mem_singleton.mp hks
          exact hnew
    · cases hstep
  | select k =>
    simp only at hstep
    split at hstep
    · next old cipher previous table tables rows hstage =>
      obtain rfl := Option.some.inj hstep
      refine h.setStage (fun i => ?_) (fun ks hks => ?_) (by simp) trivial
      · rw [expectedAfter_setStage _ _ _ _ (by simp), expectedAfter, hstage]
      · exact h.held k ks (by rw [hstage]; exact hks)
    · cases hstep
  | reencrypt k n =>
    simp only at hstep
    split at hstep
    · next old cipher previous rows hstage =>
      split at hstep
      · cases hstep
      · next pending hpending =>
        obtain rfl := Option.some.inj hstep
        refine h.setStage (fun i => ?_) (fun ks hks => ?_) (by simp)
          (plaintext_of_converted hpending)
        · rw [expectedAfter_setStage _ _ _ _ (by simp), expectedAfter, hstage]
        · exact h.held k ks (by rw [hstage]; exact hks)
    · cases hstep
  | update k i =>
    simp only at hstep
    split at hstep
    · next old cipher previous pending hstage =>
      split at hstep
      · next s value current hpending hcurrent =>
        obtain ⟨secrets, hwrite, rfl⟩ := Option.map_eq_some_iff.mp hstep
        simp only [Unchanged, hstage] at hunchanged
        exact h.update hstage hpending (hunchanged _ hpending) hcurrent hwrite
      · cases hstep
    · cases hstep
  | retire k =>
    simp only at hstep
    split at hstep
    · next old cipher previous hstage =>
      obtain ⟨keys, hupdate, rfl⟩ := Option.map_eq_some_iff.mp hstep
      exact h.retire hstage hupdate
    · cases hstep
  | commit k =>
    simp only at hstep
    split at hstep
    · obtain rfl := Option.some.inj hstep
      exact h.commit k
    · obtain rfl := Option.some.inj hstep
      exact h.commit k
    · cases hstep
  | abort k =>
    obtain rfl := Option.some.inj hstep
    exact h.abort k

/-- **No update is lost**, in any run in which a rotation writes the rows as it has read them: every
committed secret decrypts to what was last written to it. -/
theorem stored_of_expected [DecidableEq K] {keys : List (KeyId × KeyRow K)}
    {secrets : List (SecretId × Secret)} {l : List (Event K)}
    (hrun : Run (Guarded Unchanged (Step F secretKeys)) (init F keys secrets) l w)
    {i : SecretId} {p : String} (hp : w.expected i = some p) : w.stored F i = some p := by
  have h : w.Inv F :=
    hrun.invariant (fun _ _ _ h hstep => h.step hstep.1 hstep.2) (inv_init keys secrets)
  obtain ⟨s, hs, hplain⟩ := h.stored i p hp
  rw [stored, hs]
  exact hplain

/-! ### Samples -/

/-- A token that shows its key, in the place of Fernet. -/
def sampleFernet : Fernet Char where
  encrypt key _ plaintext := String.ofList (fernetPrefix.toList ++ key :: plaintext.toList)
  decrypt key token :=
    match token.toList.drop fernetPrefix.toList.length with
    | [] => none
    | c :: rest => if c = key then some (String.ofList rest) else none
  legacyDecrypt _ := none
  decrypt_encrypt key n plaintext := by simp
  encrypt_ne key n plaintext heq := by
    have hlen := congrArg (fun s : String => s.toList.length) heq
    simp at hlen

def sampleOldKey : KeyId := ⟨"k1", by decide⟩

def sampleNewKey : KeyId := ⟨"k2", by decide⟩

def sampleKeys : List (KeyId × KeyRow Char) := [(sampleOldKey, ⟨.dek 'a', 0, false⟩)]

/-- A credential under the old key. -/
def sampleSecrets : List (SecretId × Secret) :=
  [(.credential 7, ⟨sealed sampleOldKey (sampleFernet.encrypt 'a' 0 "old"), false⟩)]

/-- A user stores a new password. -/
def sampleEdit : List (Event Char) :=
  [.begin 0 sampleNewKey 'c' 1, .put 0 (.credential 7) "new" 1 false, .commit 0]

def sampleSelects : List (Event Char) := [.select 1, .select 1, .select 1]

def sampleFlush : List (Event Char) :=
  [.reencrypt 1 fun _ => 2, .update 1 (.credential 7), .retire 1, .commit 1]

/-- The user commits before the rotation reads the row. -/
def sampleBefore : List (Event Char) :=
  .rotate 1 sampleNewKey 'b' 1 :: (sampleEdit ++ sampleSelects ++ sampleFlush)

/-- The user commits between the read and the write of the row. -/
def sampleBetween : List (Event Char) :=
  .rotate 1 sampleNewKey 'b' 1 :: (sampleSelects ++ sampleEdit ++ sampleFlush)

instance (w : Vault Char) (e : Event Char) : Decidable (w.Unchanged e) := by
  unfold Unchanged
  split
  · split <;> infer_instance
  · infer_instance

def sampleView (w : Vault Char) : Option String × Option String :=
  (w.expected (.credential 7), w.stored sampleFernet (.credential 7))

theorem stored_of_expected_edit_before :
    ∃ w, Run (Guarded Unchanged (Step sampleFernet [])) (init sampleFernet sampleKeys sampleSecrets)
      sampleBefore w ∧ w.expected (.credential 7) = some "new" ∧
        w.stored sampleFernet (.credential 7) = some "new" := by
  have hview : (sampleBefore.foldlM
      (fun (w : Vault Char) e => if w.Unchanged e then w.step sampleFernet [] e else none)
      (init sampleFernet sampleKeys sampleSecrets)).map sampleView =
        some (some "new", some "new") := by
    decide +kernel
  obtain ⟨w, hw, heq⟩ := Option.map_eq_some_iff.mp hview
  have hexpected : w.expected (.credential 7) = some "new" := (Prod.mk.inj heq).1
  have hrun := Run.guarded_of_foldlM hw
  exact ⟨w, hrun, hexpected, stored_of_expected hrun hexpected⟩

/-- The rotation puts the old password back. -/
theorem older_value_restored :
    ¬∀ (K : Type) (_ : DecidableEq K) (F : Fernet K) (secretKeys : List String)
      (keys : List (KeyId × KeyRow K)) (secrets : List (SecretId × Secret)) (l : List (Event K))
      (w : Vault K), Run (Step F secretKeys) (init F keys secrets) l w →
        ∀ i p, w.expected i = some p → w.stored F i = some p := by
  intro hall
  have hview : (sampleBetween.foldlM (fun (w : Vault Char) e => w.step sampleFernet [] e)
      (init sampleFernet sampleKeys sampleSecrets)).map sampleView =
        some (some "new", some "old") := by
    decide +kernel
  obtain ⟨w, hw, heq⟩ := Option.map_eq_some_iff.mp hview
  obtain ⟨hexpected, hstored⟩ := Prod.mk.inj heq
  have hnew := hall Char _ sampleFernet [] _ _ _ w (Run.of_foldlM hw) (.credential 7) "new" hexpected
  rw [hstored] at hnew
  exact absurd hnew (by decide)

end Vault

end Nodeglow.Secrets
