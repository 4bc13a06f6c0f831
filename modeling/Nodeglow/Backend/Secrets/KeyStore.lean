import Nodeglow.Backend.Secrets.KeyRotation

/-!
# The key rows of a tenant, and the transactions over them

A transaction reads the key rows once, in one statement, and writes them in others. Reading locks
nothing. An insert of a key row is seen by no other transaction before its commit, and an update
takes the rows that it has found one by one: it waits for the lock of a row and looks again at the
newest version.

Destroying the keys deletes the wrapped data key of every key row and leaves the rows as tombstones.
A tenant without a key row gets one. Keys of which only tombstones are left are dead: nothing can be
encrypted for the tenant, and none of its `v2:` values decrypts. The process cache of unwrapped keys
is consulted for a row with a wrapped key only, so that it does not outlive the keys
(`dead_loadCached`).

## Main results

* `Dead.encrypt`, `Dead.decrypt` — dead keys are of no use.
* `dead_load`, `dead_loadCached` — keys of which only tombstones are left are dead.

Source: `backend/services/tenant_keys.py`, lines 207–223, 277–327, 400–441, 544–562 and 606–683.
-/

namespace Nodeglow.Secrets

variable {K : Type}

/-! ### Transactions over the key rows -/

/-- Where a transaction is. -/
inductive Phase (K : Type)
  | idle
  /-- A transaction that has read the key rows, with the keys that it has. -/
  | holding (ks : KeySet K)
  /-- A rotation that has read the key rows. -/
  | rotating (ks : KeySet K)
  /-- A rotation with its new key, and the keys that it has still to retire. -/
  | rotated (cipher : KeySet K) (previous : List KeyId)
  /-- A destroy that has read the key rows. -/
  | destroying (ks : KeySet K)
  /-- A destroy within its update, with the rows that it has still to update, and the number of
  those that it has updated. -/
  | shredding (ks : KeySet K) (targets : List KeyId) (count : ℕ)
  /-- A destroy whose caller commits next. -/
  | shredded
  | ended

/-- The key rows of a tenant, its transactions, and whether a destroy has committed. -/
structure KeyStore (K : Type) where
  keys : Table ℕ KeyId (KeyRow K)
  phases : ℕ → Phase K
  destroyed : Bool

inductive KeyEvent (K : Type)
  /-- `_load`. -/
  | load (k : ℕ)
  /-- `_create`, for a tenant without a key: in `tenant_cipher` for a write, or for the values that
  a destroy moves from the installation's key. -/
  | create (k : ℕ) (keyId : KeyId) (key : K) (now : ℚ)
  /-- `_load` and `_create` of `rotate_tenant_key`, and the update of one earlier key. -/
  | rotate (k : ℕ)
  | replace (k : ℕ) (keyId : KeyId) (key : K) (now : ℚ)
  | retire (k : ℕ) (i : KeyId)
  /-- `_load` of `destroy_tenant_key`, its update of the rows that it finds, one row of the update,
  and the tombstone. -/
  | destroy (k : ℕ)
  | scan (k : ℕ)
  | shred (k : ℕ) (i : KeyId)
  | finish (k : ℕ) (keyId : KeyId) (now : ℚ)
  | commit (k : ℕ)
  | abort (k : ℕ)

/-- The transaction of an event. -/
def KeyEvent.transaction : KeyEvent K → ℕ
  | load k | create k _ _ _ | rotate k | replace k _ _ _ | retire k _ | destroy k | scan k
  | shred k _ | finish k _ _ | commit k | abort k => k

/-- The row has a wrapped data key. -/
def KeyRow.live [DecidableEq K] (row : KeyRow K) : Bool := row.wrapped ≠ .destroyed

/-- A row without its wrapped key. -/
def KeyRow.shred (row : KeyRow K) : KeyRow K := { row with wrapped := .destroyed }

/-- A key row with the time at which it was retired. -/
def KeyRow.retire (row : KeyRow K) : KeyRow K := { row with retired := true }

namespace KeyStore

section Model

variable [DecidableEq K] (w : KeyStore K)

def setPhase (k : ℕ) (phase : Phase K) : KeyStore K :=
  { w with phases := Function.update w.phases k phase }

/-- `_load`, for a transaction that has not read the key rows. -/
def load (k : ℕ) : KeySet K := KeySet.load w.keys.keys (w.keys.lookup k)

/-- `_load` with the process cache of unwrapped keys: only a row with a wrapped key is looked up. -/
def loadCached (cache : KeyId → Wrapped K → Option K) (k : ℕ) : KeySet K where
  find i := (w.keys.lookup k i).map fun row =>
    if row.live then (cache i row.wrapped).elim row.wrapped .dek else .destroyed
  active := (w.load k).active
  destroyed := (w.load k).destroyed

/-- An insert of a key row; a row of that name must not exist. -/
def insert (k : ℕ) (keyId : KeyId) (row : KeyRow K) : Option (KeyStore K) :=
  if w.keys.lookup k keyId = none then
    (w.keys.write k keyId fun _ => some row).map fun keys => { w with keys := keys }
  else none

/-- `_create`, and the phase after it. -/
def create (k : ℕ) (keyId : KeyId) (key : K) (now : ℚ) (phase : Phase K) : Option (KeyStore K) :=
  (w.insert k keyId ⟨.dek key, now, false⟩).map fun w' => w'.setPhase k phase

/-- The keys that a rotation retires. -/
def previousKeys (ks : KeySet K) : List KeyId :=
  w.keys.keys.filter fun i => (ks.find i).any fun wrapped => wrapped ≠ .destroyed

/-- The rows that the update of a destroy finds. -/
def liveKeys (k : ℕ) : List KeyId :=
  w.keys.keys.filter fun i => (w.keys.lookup k i).any KeyRow.live

/-- An update of one row, when its newest version meets the condition of the update. It waits for
the lock of the row. -/
def updateRow (k : ℕ) (i : KeyId) (p : KeyRow K → Bool) (f : KeyRow K → KeyRow K)
    (updated skipped : Phase K) : Option (KeyStore K) :=
  if w.keys.writer i = none ∨ w.keys.writer i = some k then
    if (w.keys.lookup k i).any p then
      (w.keys.write k i (Option.map f)).map fun keys => { w with keys := keys }.setPhase k updated
    else some (w.setPhase k skipped)
  else none

/-- One event; it has no value where the event cannot happen. -/
def step : KeyEvent K → Option (KeyStore K)
  | .load k =>
      match w.phases k with
      | .idle => some (w.setPhase k (.holding (w.load k)))
      | _ => none
  | .create k keyId key now =>
      match w.phases k with
      | .holding ks =>
          if ks.active = none ∧ ks.destroyed = false then
            w.create k keyId key now (.holding (ks.withNew keyId key))
          else none
      | .destroying ks =>
          if ks.active = none ∧ ks.destroyed = false then
            w.create k keyId key now (.destroying (ks.withNew keyId key))
          else none
      | _ => none
  | .rotate k =>
      match w.phases k with
      | .idle | .holding _ =>
          if (w.load k).active = none ∧ (w.load k).destroyed then none
          else some (w.setPhase k (.rotating (w.load k)))
      | _ => none
  | .replace k keyId key now =>
      match w.phases k with
      | .rotating ks =>
          w.create k keyId key now (.rotated (ks.withNew keyId key) (w.previousKeys ks))
      | _ => none
  | .retire k i =>
      match w.phases k with
      | .rotated cipher previous =>
          if i ∈ previous then
            w.updateRow k i (fun row => !row.retired) KeyRow.retire
              (.rotated cipher (previous.erase i)) (.rotated cipher (previous.erase i))
          else none
      | _ => none
  | .destroy k =>
      match w.phases k with
      | .idle | .holding _ => some (w.setPhase k (.destroying (w.load k)))
      | _ => none
  | .scan k =>
      match w.phases k with
      | .destroying ks => some (w.setPhase k (.shredding ks (w.liveKeys k) 0))
      | _ => none
  | .shred k i =>
      match w.phases k with
      | .shredding ks targets count =>
          if i ∈ targets then
            w.updateRow k i KeyRow.live KeyRow.shred
              (.shredding ks (targets.filter (· ≠ i)) (count + 1))
              (.shredding ks (targets.filter (· ≠ i)) count)
          else none
      | _ => none
  | .finish k keyId now =>
      match w.phases k with
      | .shredding ks [] count =>
          if count = 0 ∧ ks.destroyed = false then
            (w.insert k keyId ⟨.destroyed, now, false⟩).map fun w' => w'.setPhase k .shredded
          else some (w.setPhase k .shredded)
      | _ => none
  | .commit k =>
      match w.phases k with
      | .holding _ | .rotated _ [] =>
          some ({ w with keys := w.keys.commit k }.setPhase k .ended)
      | .shredded =>
          some ({ w with keys := w.keys.commit k, destroyed := true }.setPhase k .ended)
      | _ => none
  | .abort k => some ({ w with keys := w.keys.rollback k }.setPhase k .ended)

/-- The transition relation of `KeyStore.step`. -/
def Step (w : KeyStore K) (e : KeyEvent K) (w' : KeyStore K) : Prop := w.step e = some w'

/-- Key rows that nobody has locked. -/
def init (keys : List (KeyId × KeyRow K)) : KeyStore K where
  keys := .ofList keys
  phases _ := .idle
  destroyed := false

end Model

end KeyStore

/-- The keys that a transaction can still use. -/
def Phase.keySet : Phase K → Option (KeySet K)
  | .holding ks | .rotating ks | .rotated ks _ | .destroying ks => some ks
  | _ => none

/-- A transaction that has read no key rows, or has ended. -/
def Phase.Closed : Phase K → Prop
  | .idle | .ended => True
  | _ => False

/-- A destroy that has begun its update and has not ended. -/
def Phase.Shreds : Phase K → Prop
  | .shredding _ _ _ | .shredded => True
  | _ => False

/-- All keys that a transaction has inserted are tombstones. -/
def NoneInserted (keys : Table ℕ KeyId (KeyRow K)) (k : ℕ) : Prop :=
  ∀ i row, keys.writer i = some k → keys.committed i = none → keys.lookup k i = some row →
    row.wrapped = .destroyed

/-- **What destroying the keys relies on.** No key is inserted while a destroy updates the rows, a
destroy finds no inserted key that is not committed, and where a destroy commits, no other
transaction that has read the key rows is open, unless it is a destroy within its update. -/
def KeyStore.Undisturbed (w : KeyStore K) : KeyEvent K → Prop
  | .create k _ _ _ | .replace k _ _ _ => ∀ j, j ≠ k → ¬ (w.phases j).Shreds
  | .scan k => ∀ j, j ≠ k → NoneInserted w.keys j
  | .commit k => w.phases k = .shredded →
      ∀ j, j ≠ k → (w.phases j).Closed ∨ (w.phases j).Shreds
  | _ => True

/-! ### Destroyed keys -/

/-- All rows are tombstones. -/
def AllTombs (view : KeyId → Option (KeyRow K)) : Prop :=
  ∀ i row, view i = some row → row.wrapped = .destroyed

/-- There is a tombstone. -/
def HasTomb (view : KeyId → Option (KeyRow K)) : Prop :=
  ∃ i row, view i = some row ∧ row.wrapped = .destroyed

/-- The keys of a tenant whose keys are destroyed. -/
structure Dead (ks : KeySet K) : Prop where
  find : ∀ i wrapped, ks.find i = some wrapped → wrapped = .destroyed
  active : ks.active = none
  destroyed : ks.destroyed = true

section Dead

variable {ks : KeySet K} {F : Fernet K}

/-- Nothing can be encrypted for the tenant. -/
theorem Dead.encrypt (h : Dead ks) (n : ℕ) (plaintext : String) :
    encrypt F ks n plaintext = .error .destroyed := by
  rw [Secrets.encrypt, h.active]
  exact if_pos h.destroyed

/-- None of the tenant's values can be decrypted. -/
theorem Dead.decrypt (h : Dead ks) {stored : String} (hv2 : isV2 stored = true) :
    ∃ error, decrypt F ks.find stored = .error error := by
  unfold Secrets.decrypt
  rw [if_pos hv2]
  cases parseV2 stored with
  | error error => exact ⟨error, rfl⟩
  | ok parsed =>
    dsimp only
    cases hfind : ks.find parsed.1 with
    | none => exact ⟨_, rfl⟩
    | some wrapped =>
      obtain rfl := h.find _ _ hfind
      exact ⟨_, rfl⟩

/-- Key rows of which only tombstones are left load as dead keys. -/
theorem dead_keySet_load [DecidableEq K] {ids : List KeyId} {rows : KeyId → Option (KeyRow K)}
    (hids : ∀ i row, rows i = some row → i ∈ ids) (hall : AllTombs rows) (hone : HasTomb rows) :
    Dead (KeySet.load ids rows) := by
  have hactive : (KeySet.load ids rows).active = none := by
    simp only [KeySet.load, List.getLast?_eq_none_iff, List.filter_eq_nil_iff]
    intro i _ hany
    obtain ⟨row, hrow, hlive⟩ := (Option.any_eq_true _ _).mp hany
    simp [hall i row hrow] at hlive
  refine ⟨fun i wrapped hfind => ?_, hactive, ?_⟩
  · obtain ⟨row, hrow, rfl⟩ := Option.map_eq_some_iff.mp hfind
    exact hall i row hrow
  · obtain ⟨i, row, hrow, hwrapped⟩ := hone
    change ((KeySet.load ids rows).active.isNone && _) = true
    rw [hactive, Option.isNone_none, Bool.true_and, List.any_eq_true]
    exact ⟨i, hids i row hrow, by simp [hrow, hwrapped]⟩

end Dead

section Load

variable [DecidableEq K] {w : KeyStore K} {k : ℕ}

theorem live_eq_false {row : KeyRow K} : row.live = false ↔ row.wrapped = .destroyed := by
  simp [KeyRow.live]

/-- A transaction reads that the keys were destroyed only from a tombstone. -/
theorem hasTomb_of_load (h : (w.load k).destroyed = true) : HasTomb (w.keys.lookup k) := by
  simp only [KeyStore.load, KeySet.load, Bool.and_eq_true, List.any_eq_true] at h
  obtain ⟨-, i, -, hany⟩ := h
  obtain ⟨row, hrow, hwrapped⟩ := (Option.any_eq_true _ _).mp hany
  exact ⟨i, row, hrow, by simpa using hwrapped⟩

/-- Where only tombstones are left, the keys are dead. -/
theorem dead_load (hall : AllTombs (w.keys.lookup k)) (hone : HasTomb (w.keys.lookup k)) :
    Dead (w.load k) := by
  refine dead_keySet_load (fun i row hrow => ?_) hall hone
  by_contra hmem
  rw [Table.lookup_of_notMem hmem] at hrow
  cases hrow

/-- The process cache does not outlive the keys, whatever it holds. -/
theorem dead_loadCached (hall : AllTombs (w.keys.lookup k)) (hone : HasTomb (w.keys.lookup k))
    (cache : KeyId → Wrapped K → Option K) : Dead (w.loadCached cache k) := by
  have hdead := dead_load hall hone
  refine ⟨fun i wrapped hfind => ?_, hdead.active, hdead.destroyed⟩
  obtain ⟨row, hrow, rfl⟩ := Option.map_eq_some_iff.mp hfind
  rw [live_eq_false.mpr (hall i row hrow)]
  rfl

end Load

end Nodeglow.Secrets
