import Nodeglow.Backend.Secrets.KeyStore

/-!
# Destroyed keys stay destroyed

A transaction that has read that the tenant has no key yet, or that its keys are live, inserts a new
active key later, and nothing notices that the keys were destroyed in between
(`KeyStore.key_after_destroy`). Nor does the update that destroys the keys see a key row that is
inserted and not yet committed. If no key is inserted meanwhile, and no other transaction that has
read the key rows is open when the destroy commits, the keys stay destroyed
(`KeyStore.destroyed_forever`). A single transaction is undisturbed (`KeyStore.run_undisturbed`).

The invariant says what a destroy knows of the rows during its update. While it updates them, no
other transaction has inserted a key, so that a commit shows it newer versions of the rows that it
has found, and tombstones.

## Main results

* `KeyStore.Inv.step`, `KeyStore.destroyed_forever` — one event, and whole runs.

Source: `backend/services/tenant_keys.py`, lines 277–327, 400–441, 544–562 and 606–683.
-/

namespace Nodeglow.Secrets

variable {K : Type}

/-! ### The invariant -/

/-- What a destroy knows of the rows that it sees. -/
def Phase.Knows (view : KeyId → Option (KeyRow K)) : Phase K → Prop
  | .destroying ks => ks.destroyed = true → HasTomb view
  | .shredding ks targets count =>
      (ks.destroyed = true ∨ 0 < count → HasTomb view) ∧
        ∀ i row, view i = some row → row.wrapped = .destroyed ∨ i ∈ targets
  | .shredded => AllTombs view ∧ HasTomb view
  | _ => True

/-- A transaction that began after the keys were destroyed. -/
def Phase.Harmless : Phase K → Prop
  | .holding ks | .destroying ks => Dead ks
  | .rotating _ | .rotated _ _ => False
  | _ => True

theorem Phase.Closed.harmless {phase : Phase K} (h : phase.Closed) : phase.Harmless := by
  cases phase <;> trivial

theorem Phase.Shreds.harmless {phase : Phase K} (h : phase.Shreds) : phase.Harmless := by
  cases phase <;> trivial

namespace KeyStore

structure Inv (w : KeyStore K) : Prop where
  writers : ∀ i k, w.keys.writer i = some k → ¬ (w.phases k).Closed
  /-- No row is deleted, and no tombstone gets a key again. -/
  kept : ∀ i k row, w.keys.writer i = some k → w.keys.committed i = some row →
    ∃ row', w.keys.lookup k i = some row' ∧
      (row.wrapped = .destroyed → row'.wrapped = .destroyed)
  knows : ∀ k, (w.phases k).Knows (w.keys.lookup k)
  inserted : ∀ k, (w.phases k).Shreds → ∀ j, j ≠ k → NoneInserted w.keys j
  after : w.destroyed = true → AllTombs w.keys.committed ∧ HasTomb w.keys.committed ∧
    ∀ k, (¬ (w.phases k).Shreds → AllTombs (w.keys.lookup k)) ∧ (w.phases k).Harmless

section Steps

variable {w w' : KeyStore K} {k : ℕ} {i : KeyId} {phase : Phase K}
  {keys : Table ℕ KeyId (KeyRow K)}

theorem phases_setPhase (w : KeyStore K) (k : ℕ) (phase : Phase K) (j : ℕ) :
    (w.setPhase k phase).phases j = if j = k then phase else w.phases j := by
  simp [setPhase, Function.update_apply]

theorem inv_init (keys : List (KeyId × KeyRow K)) : (init keys).Inv where
  writers i k hw := by cases hw
  kept i k row hw := by cases hw
  knows k := trivial
  inserted k hk := hk.elim
  after hd := by cases hd

/-- A transaction sees a version of every committed row, and the committed tombstones. -/
theorem Inv.exists_lookup (h : w.Inv) (k : ℕ) {row : KeyRow K}
    (hrow : w.keys.committed i = some row) :
    ∃ row', w.keys.lookup k i = some row' ∧
      (row.wrapped = .destroyed → row'.wrapped = .destroyed) := by
  by_cases hw : w.keys.writer i = some k
  · exact h.kept i k row hw hrow
  · exact ⟨row, (Table.lookup_of_writer_ne hw).trans hrow, fun hd => hd⟩

theorem Inv.hasTomb_lookup (h : w.Inv) (k : ℕ) (hone : HasTomb w.keys.committed) :
    HasTomb (w.keys.lookup k) := by
  obtain ⟨i, row, hrow, hwrapped⟩ := hone
  obtain ⟨row', hrow', hkept⟩ := h.exists_lookup k hrow
  exact ⟨i, row', hrow', hkept hwrapped⟩

theorem Inv.dead_load [DecidableEq K] (h : w.Inv) (hd : w.destroyed = true)
    (hk : ¬ (w.phases k).Shreds) : Dead (w.load k) :=
  Secrets.dead_load (((h.after hd).2.2 k).1 hk) (h.hasTomb_lookup k (h.after hd).2.1)

/-- A transaction gets on, and commits nothing. -/
theorem Inv.advance (h : w.Inv) (hlocal : Table.Local k w.keys keys)
    (hopen : ∀ i, keys.writer i = some k → ¬ phase.Closed)
    (hkept : ∀ i row, keys.writer i = some k → w.keys.committed i = some row →
      ∃ row', keys.lookup k i = some row' ∧
        (row.wrapped = .destroyed → row'.wrapped = .destroyed))
    (hknows : phase.Knows (keys.lookup k))
    (hown : ∀ j, j ≠ k → (w.phases j).Shreds → NoneInserted keys k)
    (hothers : phase.Shreds → ∀ j, j ≠ k → NoneInserted w.keys j)
    (hafter : w.destroyed = true →
      (¬ phase.Shreds → AllTombs (keys.lookup k)) ∧ phase.Harmless) :
    ({ w with keys := keys }.setPhase k phase).Inv := by
  have hcommitted : keys.committed = w.keys.committed := funext hlocal.committed
  have hview {j : ℕ} (hj : j ≠ k) : keys.lookup j = w.keys.lookup j := funext (hlocal.lookup j hj)
  have hinserted {j : ℕ} (hj : j ≠ k) (hnone : NoneInserted w.keys j) : NoneInserted keys j := by
    intro i row hw hnew hrow
    rw [hview hj] at hrow
    exact hnone i row ((hlocal.writer j hj i).mp hw) ((hlocal.committed i).symm.trans hnew) hrow
  refine ⟨fun i j hj => ?_, fun i j row hj hrow => ?_, fun j => ?_, fun j hj l hl => ?_,
    fun hd => ?_⟩
  · rw [phases_setPhase]
    split_ifs with hjk
    · exact hopen i (hjk ▸ hj)
    · exact h.writers i j ((hlocal.writer j hjk i).mp hj)
  · have hrow' : w.keys.committed i = some row := (hlocal.committed i).symm.trans hrow
    by_cases hjk : j = k
    · exact hjk ▸ hkept i row (hjk ▸ hj) hrow'
    · obtain ⟨row', hlookup, htomb⟩ := h.kept i j row ((hlocal.writer j hjk i).mp hj) hrow'
      exact ⟨row', (hlocal.lookup j hjk i).trans hlookup, htomb⟩
  · rw [phases_setPhase]
    split_ifs with hjk
    · exact hjk ▸ hknows
    · change (w.phases j).Knows (keys.lookup j)
      rw [hview hjk]
      exact h.knows j
  · change NoneInserted keys l
    rw [phases_setPhase] at hj
    split_ifs at hj with hjk
    · exact hinserted (hjk ▸ hl) (hothers hj l (hjk ▸ hl))
    · by_cases hlk : l = k
      · exact hlk ▸ hown j hjk hj
      · exact hinserted hlk (h.inserted j hj l hl)
  · obtain ⟨hall, hone, hafter'⟩ := h.after hd
    refine ⟨?_, ?_, fun j => ?_⟩
    · change AllTombs keys.committed
      rw [hcommitted]
      exact hall
    · change HasTomb keys.committed
      rw [hcommitted]
      exact hone
    · rw [phases_setPhase]
      change (_ → AllTombs (keys.lookup j)) ∧ _
      split_ifs with hjk
      · exact hjk ▸ hafter hd
      · rw [hview hjk]
        exact hafter' j

/-- A transaction gets on, and writes nothing. -/
theorem Inv.setPhase (h : w.Inv) (hopen : ¬ phase.Closed) (hknows : phase.Knows (w.keys.lookup k))
    (hothers : phase.Shreds → ∀ j, j ≠ k → NoneInserted w.keys j)
    (hafter : w.destroyed = true →
      (¬ phase.Shreds → AllTombs (w.keys.lookup k)) ∧ phase.Harmless) :
    (w.setPhase k phase).Inv :=
  h.advance (Table.Local.refl k w.keys) (fun _ _ => hopen) (fun i row => h.kept i k row) hknows
    (fun j hj hs => h.inserted j hs k hj.symm) hothers hafter

/-- A transaction gets on, and writes one row. -/
theorem Inv.write (h : w.Inv) {f : Option (KeyRow K) → Option (KeyRow K)}
    (hwrite : w.keys.write k i f = some keys) (hopen : ¬ phase.Closed)
    (hkept : ∀ row, w.keys.lookup k i = some row → ∃ row', f (some row) = some row' ∧
      (row.wrapped = .destroyed → row'.wrapped = .destroyed))
    (hknows : phase.Knows (keys.lookup k))
    (hown : ∀ j, j ≠ k → (w.phases j).Shreds → ∀ row, w.keys.committed i = none →
      f (w.keys.lookup k i) = some row → row.wrapped = .destroyed)
    (hothers : phase.Shreds → ∀ j, j ≠ k → NoneInserted w.keys j)
    (hafter : w.destroyed = true →
      (¬ phase.Shreds → AllTombs (keys.lookup k)) ∧ phase.Harmless) :
    ({ w with keys := keys }.setPhase k phase).Inv := by
  refine h.advance (Table.local_of_write hwrite) (fun _ _ => hopen) (fun j row hj hrow => ?_)
    hknows (fun j hj hs l row hw hnew hrow => ?_) hothers hafter
  · obtain ⟨row', hrow', htomb⟩ := h.exists_lookup k hrow
    by_cases hji : j = i
    · subst hji
      obtain ⟨row'', hf, htomb'⟩ := hkept row' hrow'
      exact ⟨row'', by rw [Table.lookup_of_write hwrite, hrow', hf], fun hd => htomb' (htomb hd)⟩
    · exact ⟨row', by rw [Table.lookup_of_write_of_ne hwrite hji, hrow'], htomb⟩
  · rw [Table.committed_of_write hwrite] at hnew
    by_cases hli : l = i
    · subst hli
      rw [Table.lookup_of_write hwrite] at hrow
      exact hown j hj hs row hnew hrow
    · rw [Table.lookup_of_write_of_ne hwrite hli] at hrow
      rw [Table.writer_of_write hwrite, if_neg hli] at hw
      exact h.inserted j hs k hj.symm l row hw hnew hrow

theorem lookup_of_insert {row : KeyRow K}
    (hwrite : w.keys.write k i (fun _ => some row) = some keys)
    (j : KeyId) : keys.lookup k j = if j = i then some row else w.keys.lookup k j := by
  split_ifs with hji
  · rw [hji, Table.lookup_of_write hwrite]
  · rw [Table.lookup_of_write_of_ne hwrite hji]

/-- A transaction inserts a key row. -/
theorem Inv.insert (h : w.Inv) {row : KeyRow K} {w₁ : KeyStore K}
    (hinsert : w.insert k i row = some w₁) (hopen : ¬ phase.Closed)
    (hknows : ∀ keys : Table ℕ KeyId (KeyRow K),
      (∀ j, keys.lookup k j = if j = i then some row else w.keys.lookup k j) →
        phase.Knows (keys.lookup k))
    (hown : ∀ j, j ≠ k → (w.phases j).Shreds → row.wrapped = .destroyed)
    (hothers : phase.Shreds → ∀ j, j ≠ k → NoneInserted w.keys j)
    (hafter : w.destroyed = true → phase.Harmless ∧
      (¬ phase.Shreds → row.wrapped = .destroyed ∧ AllTombs (w.keys.lookup k))) :
    (w₁.setPhase k phase).Inv := by
  unfold KeyStore.insert at hinsert
  split_ifs at hinsert with hnone
  obtain ⟨keys, hwrite, rfl⟩ := Option.map_eq_some_iff.mp hinsert
  have hlookup := lookup_of_insert hwrite
  refine h.write hwrite hopen (fun row' hrow' => ?_) (hknows keys hlookup)
    (fun j hj hs row' _ hrow' => ?_) hothers
    fun hd => ⟨fun hs j row' hrow' => ?_, (hafter hd).1⟩
  · rw [hnone] at hrow'
    cases hrow'
  · exact Option.some.inj hrow' ▸ hown j hj hs
  · obtain ⟨htomb, hall⟩ := (hafter hd).2 hs
    rw [hlookup] at hrow'
    split_ifs at hrow' with hji
    · exact Option.some.inj hrow' ▸ htomb
    · exact hall j row' hrow'

/-- A new key is created only as long as the keys are not destroyed. -/
theorem Inv.create [DecidableEq K] (h : w.Inv) {key : K} {now : ℚ}
    (hcreate : w.create k i key now phase = some w') (hd : w.destroyed = false)
    (hquiet : ∀ j, j ≠ k → ¬ (w.phases j).Shreds) (hopen : ¬ phase.Closed)
    (hshreds : ¬ phase.Shreds) (hknows : ∀ view, phase.Knows view) : w'.Inv := by
  obtain ⟨w₁, hinsert, rfl⟩ := Option.map_eq_some_iff.mp hcreate
  refine h.insert hinsert hopen (fun keys _ => hknows _) (fun j hj hs => absurd hs (hquiet j hj))
    (fun hs => absurd hs hshreds) fun hd' => ?_
  rw [hd] at hd'
  cases hd'

/-- A transaction updates one row, or finds that there is nothing to update. -/
theorem Inv.updateRow [DecidableEq K] (h : w.Inv) {p : KeyRow K → Bool}
    {f : KeyRow K → KeyRow K} {updated skipped : Phase K}
    (hupdate : w.updateRow k i p f updated skipped = some w')
    (hopen : ¬ updated.Closed ∧ ¬ skipped.Closed)
    (hkept : ∀ row, row.wrapped = .destroyed → (f row).wrapped = .destroyed)
    (hknows : ∀ row, w.keys.lookup k i = some row → p row = true →
      ∀ keys : Table ℕ KeyId (KeyRow K),
        (∀ j, keys.lookup k j = if j = i then some (f row) else w.keys.lookup k j) →
          updated.Knows (keys.lookup k))
    (hskipped : (w.keys.lookup k i).any p = false → skipped.Knows (w.keys.lookup k))
    (hothers : updated.Shreds ∨ skipped.Shreds → ∀ j, j ≠ k → NoneInserted w.keys j)
    (hafter : w.destroyed = true → (updated.Harmless ∧ skipped.Harmless) ∧
      (¬ updated.Shreds ∨ ¬ skipped.Shreds → AllTombs (w.keys.lookup k))) : w'.Inv := by
  unfold KeyStore.updateRow at hupdate
  split_ifs at hupdate with hfree hany
  · obtain ⟨keys, hwrite, rfl⟩ := Option.map_eq_some_iff.mp hupdate
    obtain ⟨row, hrow, hp⟩ := (Option.any_eq_true _ _).mp hany
    have hlookup (j : KeyId) :
        keys.lookup k j = if j = i then some (f row) else w.keys.lookup k j := by
      split_ifs with hji
      · rw [hji, Table.lookup_of_write hwrite, hrow, Option.map_some]
      · rw [Table.lookup_of_write_of_ne hwrite hji]
    refine h.write hwrite hopen.1 (fun row' _ => ⟨f row', rfl, hkept row'⟩)
      (hknows row hrow hp keys hlookup) (fun j hj hs row' hnew hrow' => ?_)
      (fun hs => hothers (.inl hs)) fun hd => ⟨fun hs j row' hrow' => ?_, (hafter hd).1.1⟩
    · -- The row that is updated is not committed, so that the transaction has inserted it.
      have hw : w.keys.writer i = some k := by
        by_contra hw
        rw [Table.lookup_of_writer_ne hw, hnew] at hrow
        cases hrow
      rw [hrow, Option.map_some] at hrow'
      exact Option.some.inj hrow' ▸ hkept row (h.inserted j hs k hj.symm i row hw hnew hrow)
    · have hall := (hafter hd).2 (.inl hs)
      rw [hlookup] at hrow'
      split_ifs at hrow' with hji
      · exact Option.some.inj hrow' ▸ hkept row (hall i row hrow)
      · exact hall j row' hrow'
  · obtain rfl := Option.some.inj hupdate
    exact h.setPhase hopen.2 (hskipped (by simpa using hany)) (fun hs => hothers (.inr hs))
      fun hd => ⟨fun hs => (hafter hd).2 (.inr hs), (hafter hd).1.2⟩

/-- A transaction ends without a commit. -/
theorem Inv.abort (h : w.Inv) (k : ℕ) :
    ({ w with keys := w.keys.rollback k }.setPhase k .ended).Inv := by
  have hnone (i : KeyId) : (w.keys.rollback k).writer i ≠ some k := by
    rw [Table.writer_rollback]
    split_ifs with hw
    · simp
    · exact hw
  refine h.advance (Table.local_rollback k w.keys) (fun i hw => absurd hw (hnone i))
    (fun i row hw => absurd hw (hnone i)) trivial (fun _ _ _ i row hw => absurd hw (hnone i))
    (fun hs => hs.elim) fun hd => ⟨fun _ i row hrow => ?_, trivial⟩
  rw [Table.lookup_of_writer_ne (hnone i), Table.committed_rollback] at hrow
  exact (h.after hd).1 i row hrow

/-- What a transaction commits is what it has seen. -/
theorem committed_commit (w : KeyStore K) (k : ℕ) :
    (w.keys.commit k).committed = w.keys.lookup k := by
  funext i
  rw [Table.committed_commit]
  split_ifs with hw
  · rfl
  · exact (Table.lookup_of_writer_ne hw).symm

/-- A commit leaves the tombstones that another transaction sees. -/
theorem Inv.hasTomb_lookup_commit (h : w.Inv) {j : ℕ} (hj : j ≠ k)
    (hone : HasTomb (w.keys.lookup j)) : HasTomb ((w.keys.commit k).lookup j) := by
  obtain ⟨i, row, hrow, hwrapped⟩ := hone
  by_cases hw : w.keys.writer i = some k
  · -- The other transaction has seen the committed version.
    have hcommitted : w.keys.committed i = some row := by
      rw [← Table.lookup_of_writer_ne (t := j) (by simpa [hw] using hj.symm), hrow]
    obtain ⟨row', hrow', hkept⟩ := h.kept i k row hw hcommitted
    exact ⟨i, row', by rw [Table.lookup_commit, if_pos hw, hrow'], hkept hwrapped⟩
  · exact ⟨i, row, by rw [Table.lookup_commit, if_neg hw, hrow], hwrapped⟩

/-- A commit shows a destroy within its update no new key. -/
theorem Inv.lookup_commit_cases (h : w.Inv) {j : ℕ} (hj : j ≠ k) (hs : (w.phases j).Shreds)
    {row : KeyRow K} (hrow : (w.keys.commit k).lookup j i = some row) :
    row.wrapped = .destroyed ∨ ∃ row', w.keys.lookup j i = some row' ∧
      (row'.wrapped = .destroyed → row.wrapped = .destroyed) := by
  rw [Table.lookup_commit] at hrow
  split_ifs at hrow with hw
  · cases hcommitted : w.keys.committed i with
    | none => exact .inl (h.inserted j hs k hj.symm i row hw hcommitted hrow)
    | some row₀ =>
      obtain ⟨row', hrow', hkept⟩ := h.kept i k row₀ hw hcommitted
      obtain rfl := Option.some.inj (hrow'.symm.trans hrow)
      exact .inr ⟨row₀, by rw [Table.lookup_of_writer_ne (by simpa [hw] using hj.symm), hcommitted],
        hkept⟩
  · exact .inr ⟨row, hrow, id⟩

/-- What a destroy knows of the rows stays true when another transaction commits. -/
theorem Inv.knows_commit (h : w.Inv) {j : ℕ} (hj : j ≠ k) :
    (w.phases j).Knows ((w.keys.commit k).lookup j) := by
  have hknows := h.knows j
  cases hphase : w.phases j with
  | destroying ks =>
    rw [hphase] at hknows
    exact fun hd => h.hasTomb_lookup_commit hj (hknows hd)
  | shredding ks targets count =>
    have hs : (w.phases j).Shreds := by
      rw [hphase]
      trivial
    rw [hphase] at hknows
    refine ⟨fun hd => h.hasTomb_lookup_commit hj (hknows.1 hd), fun i row hrow => ?_⟩
    rcases h.lookup_commit_cases hj hs hrow with htomb | ⟨row', hrow', htomb⟩
    · exact .inl htomb
    · exact (hknows.2 i row' hrow').imp_left htomb
  | shredded =>
    have hs : (w.phases j).Shreds := by
      rw [hphase]
      trivial
    rw [hphase] at hknows
    refine ⟨fun i row hrow => ?_, h.hasTomb_lookup_commit hj hknows.2⟩
    rcases h.lookup_commit_cases hj hs hrow with htomb | ⟨row', hrow', htomb⟩
    · exact htomb
    · exact htomb (hknows.1 i row' hrow')
  | _ => trivial

/-- A transaction commits; `hafter` is what is to be shown where the keys are destroyed. -/
theorem Inv.end (h : w.Inv) {destroyed : Bool}
    (hafter : destroyed = true → AllTombs (w.keys.lookup k) ∧ HasTomb (w.keys.lookup k) ∧
      ∀ j, j ≠ k → (¬ (w.phases j).Shreds → ∀ i row, w.keys.writer i ≠ some k →
        w.keys.lookup j i = some row → row.wrapped = .destroyed) ∧ (w.phases j).Harmless) :
    ({ w with keys := w.keys.commit k, destroyed := destroyed }.setPhase k .ended).Inv := by
  have hwriter {i : KeyId} {j : ℕ} (hj : (w.keys.commit k).writer i = some j) :
      j ≠ k ∧ w.keys.writer i = some j ∧ w.keys.writer i ≠ some k := by
    rw [Table.writer_commit] at hj
    split_ifs at hj with hw
    refine ⟨?_, hj, hw⟩
    rintro rfl
    exact hw hj
  have hcommitted {i : KeyId} (hne : w.keys.writer i ≠ some k) :
      (w.keys.commit k).committed i = w.keys.committed i := by
    rw [Table.committed_commit, if_neg hne]
  have hlookup {i : KeyId} (hne : w.keys.writer i ≠ some k) (j : ℕ) :
      (w.keys.commit k).lookup j i = w.keys.lookup j i := by
    rw [Table.lookup_commit, if_neg hne]
  refine ⟨fun i j hj => ?_, fun i j row hj hrow => ?_, fun j => ?_,
    fun j hj l hl i row hw hnew hrow => ?_, fun hd => ?_⟩
  · obtain ⟨hjk, hw, -⟩ := hwriter hj
    rw [phases_setPhase, if_neg hjk]
    exact h.writers i j hw
  · obtain ⟨-, hw, hne⟩ := hwriter hj
    obtain ⟨row', hrow', htomb⟩ := h.kept i j row hw ((hcommitted hne).symm.trans hrow)
    exact ⟨row', (hlookup hne j).trans hrow', htomb⟩
  · rw [phases_setPhase]
    split_ifs with hjk
    · trivial
    · exact h.knows_commit hjk
  · rw [phases_setPhase] at hj
    split_ifs at hj with hjk
    · exact hj.elim
    · obtain ⟨-, hw, hne⟩ := hwriter hw
      exact h.inserted j hj l hl i row hw ((hcommitted hne).symm.trans hnew)
        ((hlookup hne l).symm.trans hrow)
  · obtain ⟨hall, hone, hothers⟩ := hafter hd
    rw [← committed_commit w k] at hone
    refine ⟨?_, hone, fun j => ⟨fun hs i row hrow => ?_, ?_⟩⟩
    · change AllTombs (w.keys.commit k).committed
      rw [committed_commit]
      exact hall
    · change (w.keys.commit k).lookup j i = some row at hrow
      rw [Table.lookup_commit] at hrow
      split_ifs at hrow with hw
      · exact hall i row hrow
      · by_cases hjk : j = k
        · exact hall i row (hjk ▸ hrow)
        · rw [phases_setPhase, if_neg hjk] at hs
          exact (hothers j hjk).1 hs i row hw hrow
    · rw [phases_setPhase]
      split_ifs with hjk
      · trivial
      · exact (hothers j hjk).2

/-- A transaction that destroys nothing commits. -/
theorem Inv.commit (h : w.Inv) (hk : ¬ (w.phases k).Shreds) :
    ({ w with keys := w.keys.commit k }.setPhase k .ended).Inv := by
  refine h.end fun hd => ?_
  obtain ⟨-, hone, hothers⟩ := h.after hd
  exact ⟨(hothers k).1 hk, h.hasTomb_lookup k hone,
    fun j _ => ⟨fun hs i row _ => (hothers j).1 hs i row, (hothers j).2⟩⟩

/-- **A destroy commits**, with no other transaction open that may hold a key. -/
theorem Inv.commit_shredded (h : w.Inv) (hphase : w.phases k = .shredded)
    (hothers : ∀ j, j ≠ k → (w.phases j).Closed ∨ (w.phases j).Shreds) :
    ({ w with keys := w.keys.commit k, destroyed := true }.setPhase k .ended).Inv := by
  have hknows := h.knows k
  rw [hphase] at hknows
  obtain ⟨hall, hone⟩ := hknows
  refine h.end fun _ => ⟨hall, hone, fun j hj => ⟨fun hs i row hw hrow => ?_, ?_⟩⟩
  · -- A closed transaction has written nothing, so that it sees what the destroy sees.
    have hclosed := (hothers j hj).resolve_right hs
    have hj : w.keys.writer i ≠ some j := fun hw' => h.writers i j hw' hclosed
    rw [Table.lookup_of_writer_ne hj, ← Table.lookup_of_writer_ne hw] at hrow
    exact hall i row hrow
  · exact (hothers j hj).elim Phase.Closed.harmless Phase.Shreds.harmless

/-- A transaction of whose keys none is live creates none. -/
theorem Inv.not_destroyed (h : w.Inv) {ks : KeySet K}
    (hphase : w.phases k = .holding ks ∨ w.phases k = .destroying ks)
    (hks : ks.destroyed = false) : w.destroyed = false := by
  by_contra hd
  have hdead := ((h.after (by simpa using hd)).2.2 k).2
  rcases hphase with hphase | hphase <;> rw [hphase] at hdead <;>
    cases hdead.destroyed.symm.trans hks

theorem mem_liveKeys [DecidableEq K] {row : KeyRow K} (hrow : w.keys.lookup k i = some row) :
    row.wrapped = .destroyed ∨ i ∈ w.liveKeys k := by
  rw [← live_eq_false]
  cases hlive : row.live with
  | false => exact .inl rfl
  | true =>
    refine .inr (List.mem_filter.mpr ⟨?_, by simp [hrow, hlive]⟩)
    by_contra hmem
    rw [Table.lookup_of_notMem hmem] at hrow
    cases hrow

/-- A destroy updates one row. -/
theorem Inv.shred [DecidableEq K] (h : w.Inv) {ks : KeySet K} {targets : List KeyId} {count : ℕ}
    (hphase : w.phases k = .shredding ks targets count)
    (hupdate : w.updateRow k i KeyRow.live KeyRow.shred
      (.shredding ks (targets.filter (· ≠ i)) (count + 1))
      (.shredding ks (targets.filter (· ≠ i)) count) = some w') : w'.Inv := by
  have hknows := h.knows k
  rw [hphase] at hknows
  have hothers := h.inserted k (by rw [hphase]; trivial)
  have htarget {j : KeyId} (hji : j ≠ i) {row : KeyRow K} (hrow : w.keys.lookup k j = some row) :
      row.wrapped = .destroyed ∨ j ∈ targets.filter (· ≠ i) :=
    (hknows.2 j row hrow).imp_right fun hj => List.mem_filter.mpr ⟨hj, by simpa using hji⟩
  refine h.updateRow hupdate ⟨id, id⟩ (fun _ _ => rfl) (fun row hrow _ keys hlookup => ⟨fun _ => ?_,
    fun j row' hrow' => ?_⟩) (fun hnone => ⟨hknows.1, fun j row' hrow' => ?_⟩) (fun _ => hothers)
    fun _ => ⟨⟨trivial, trivial⟩, fun hs => absurd trivial (or_self_iff.mp hs)⟩
  · exact ⟨i, row.shred, by rw [hlookup, if_pos rfl], rfl⟩
  · rw [hlookup] at hrow'
    split_ifs at hrow' with hji
    · exact .inl (Option.some.inj hrow' ▸ rfl)
    · exact htarget hji hrow'
  · by_cases hji : j = i
    · subst hji
      rw [hrow', Option.any_some] at hnone
      exact .inl (live_eq_false.mp hnone)
    · exact htarget hji hrow'

/-- A destroy ends its update, and leaves a tombstone. -/
theorem Inv.finish [DecidableEq K] (h : w.Inv) {ks : KeySet K} {count : ℕ} {now : ℚ}
    (hphase : w.phases k = .shredding ks [] count)
    (hfinish : (if count = 0 ∧ ks.destroyed = false then
        (w.insert k i ⟨.destroyed, now, false⟩).map fun w₁ => w₁.setPhase k .shredded
      else some (w.setPhase k .shredded)) = some w') : w'.Inv := by
  have hknows := h.knows k
  rw [hphase] at hknows
  have hothers := h.inserted k (by rw [hphase]; trivial)
  have hall : AllTombs (w.keys.lookup k) := fun j row hrow =>
    (hknows.2 j row hrow).resolve_right (List.not_mem_nil)
  split_ifs at hfinish with hnone
  · obtain ⟨w₁, hinsert, rfl⟩ := Option.map_eq_some_iff.mp hfinish
    refine h.insert hinsert id (fun keys hlookup => ⟨fun j row hrow => ?_,
      ⟨i, _, by rw [hlookup, if_pos rfl], rfl⟩⟩) (fun _ _ _ => rfl) (fun _ => hothers)
      fun _ => ⟨trivial, fun hs => absurd trivial hs⟩
    rw [hlookup] at hrow
    split_ifs at hrow with hji
    · exact Option.some.inj hrow ▸ rfl
    · exact hall j row hrow
  · obtain rfl := Option.some.inj hfinish
    have hone : HasTomb (w.keys.lookup k) := by
      refine hknows.1 ?_
      rcases not_and_or.mp hnone with hcount | hd
      · exact .inr (Nat.pos_of_ne_zero hcount)
      · exact .inl (by simpa using hd)
    exact h.setPhase id ⟨hall, hone⟩ (fun _ => hothers)
      fun _ => ⟨fun hs => absurd trivial hs, trivial⟩

/-- **One event** keeps the invariant. -/
theorem Inv.step [DecidableEq K] (h : w.Inv) {e : KeyEvent K} (hguard : w.Undisturbed e)
    (hstep : w.step e = some w') : w'.Inv := by
  cases e with
  | load k =>
    simp only [KeyStore.step] at hstep
    split at hstep <;> try contradiction
    next hphase =>
      obtain rfl := Option.some.inj hstep
      have hs : ¬ (w.phases k).Shreds := by rw [hphase]; exact id
      exact h.setPhase id trivial (fun hs => hs.elim)
        fun hd => ⟨fun _ => ((h.after hd).2.2 k).1 hs, h.dead_load hd hs⟩
  | create k keyId key now =>
    simp only [KeyStore.step] at hstep
    split at hstep <;> try contradiction
    · next ks hphase =>
      obtain ⟨⟨-, hks⟩, hcreate⟩ := Option.ite_none_right_eq_some.mp hstep
      exact h.create hcreate (h.not_destroyed (.inl hphase) hks) hguard id id fun _ => trivial
    · next ks hphase =>
      obtain ⟨⟨-, hks⟩, hcreate⟩ := Option.ite_none_right_eq_some.mp hstep
      refine h.create hcreate (h.not_destroyed (.inr hphase) hks) hguard id id fun _ hd => ?_
      cases hd
  | rotate k =>
    have hrotate (hs : ¬ (w.phases k).Shreds)
        (hstep : (if (w.load k).active = none ∧ (w.load k).destroyed then none
          else some (w.setPhase k (.rotating (w.load k)))) = some w') : w'.Inv := by
      obtain ⟨hlive, rfl⟩ := made_of_guard_not hstep
      refine h.setPhase id trivial (fun hs => hs.elim) fun hd => absurd ?_ hlive
      exact ⟨(h.dead_load hd hs).active, (h.dead_load hd hs).destroyed⟩
    simp only [KeyStore.step] at hstep
    split at hstep <;> try contradiction
    all_goals next hphase => exact hrotate (by rw [hphase]; exact id) hstep
  | replace k keyId key now =>
    simp only [KeyStore.step] at hstep
    split at hstep <;> try contradiction
    next ks hphase =>
      refine h.create hstep ?_ hguard id id fun _ => trivial
      by_contra hd
      have hharmless := ((h.after (by simpa using hd)).2.2 k).2
      rw [hphase] at hharmless
      exact hharmless
  | retire k i =>
    simp only [KeyStore.step] at hstep
    split at hstep <;> try contradiction
    next cipher previous hphase =>
      obtain ⟨-, hupdate⟩ := Option.ite_none_right_eq_some.mp hstep
      refine h.updateRow hupdate ⟨id, id⟩ (fun _ hd => hd) (fun _ _ _ _ _ => trivial)
        (fun _ => trivial) (fun hs => (or_self_iff.mp hs).elim) fun hd => ?_
      have hharmless := ((h.after hd).2.2 k).2
      rw [hphase] at hharmless
      exact hharmless.elim
  | destroy k =>
    have hdestroy (hs : ¬ (w.phases k).Shreds)
        (heq : some (w.setPhase k (.destroying (w.load k))) = some w') : w'.Inv := by
      obtain rfl := Option.some.inj heq
      exact h.setPhase id hasTomb_of_load (fun hs => hs.elim)
        fun hd => ⟨fun _ => ((h.after hd).2.2 k).1 hs, h.dead_load hd hs⟩
    simp only [KeyStore.step] at hstep
    split at hstep <;> try contradiction
    all_goals next hphase => exact hdestroy (by rw [hphase]; exact id) hstep
  | scan k =>
    simp only [KeyStore.step] at hstep
    split at hstep <;> try contradiction
    next ks hphase =>
      obtain rfl := Option.some.inj hstep
      have hknows := h.knows k
      rw [hphase] at hknows
      exact h.setPhase id ⟨fun hd => hknows (hd.resolve_right (lt_irrefl 0)),
        fun i row hrow => mem_liveKeys hrow⟩ (fun _ => hguard)
        fun _ => ⟨fun hs => absurd trivial hs, trivial⟩
  | shred k i =>
    simp only [KeyStore.step] at hstep
    split at hstep <;> try contradiction
    next hphase => exact h.shred hphase (Option.ite_none_right_eq_some.mp hstep).2
  | finish k keyId now =>
    simp only [KeyStore.step] at hstep
    split at hstep <;> try contradiction
    next hphase => exact h.finish hphase hstep
  | commit k =>
    simp only [KeyStore.step] at hstep
    split at hstep <;> try contradiction
    · next hphase =>
      obtain rfl := Option.some.inj hstep
      exact h.commit (by rw [hphase]; exact id)
    · next hphase =>
      obtain rfl := Option.some.inj hstep
      exact h.commit (by rw [hphase]; exact id)
    · next hphase =>
      obtain rfl := Option.some.inj hstep
      exact h.commit_shredded hphase (hguard hphase)
  | abort k =>
    obtain rfl := Option.some.inj hstep
    exact h.abort k

/-! ### Runs -/

/-- The keys that an open transaction can still use are dead as well. -/
theorem Inv.dead_keySet (h : w.Inv) (hd : w.destroyed = true) {ks : KeySet K}
    (hks : (w.phases k).keySet = some ks) : Dead ks := by
  have hharmless := ((h.after hd).2.2 k).2
  cases hphase : w.phases k <;> rw [hphase] at hks hharmless <;>
    first
      | exact hharmless.elim
      | exact Option.some.inj hks ▸ hharmless
      | cases hks

/-- **Destroyed keys stay destroyed**, in any run in which the destroys are undisturbed: no key row
has a key again, and whoever reads the key rows, or has read them, can neither encrypt nor decrypt
a `v2:` value. -/
theorem destroyed_forever [DecidableEq K] {keys : List (KeyId × KeyRow K)} {l : List (KeyEvent K)}
    (hrun : Run (Guarded Undisturbed Step) (init keys) l w) (hd : w.destroyed = true)
    (F : Fernet K) (cache : KeyId → Wrapped K → Option K) :
    AllTombs w.keys.committed ∧ ∀ k, ¬ (w.phases k).Shreds → AllTombs (w.keys.lookup k) ∧
      ∀ ks, ks = w.loadCached cache k ∨ (w.phases k).keySet = some ks →
        (∀ n plaintext, encrypt F ks n plaintext = .error .destroyed) ∧
          ∀ stored, isV2 stored = true → ∃ error, decrypt F ks.find stored = .error error := by
  have h : w.Inv := hrun.invariant (fun _ _ _ h hstep => h.step hstep.1 hstep.2) (inv_init keys)
  obtain ⟨hall, hone, hafter⟩ := h.after hd
  refine ⟨hall, fun k hs => ⟨(hafter k).1 hs, fun ks hks => ?_⟩⟩
  have hdead : Dead ks := by
    rcases hks with rfl | hks
    · exact dead_loadCached ((hafter k).1 hs) (h.hasTomb_lookup k hone) cache
    · exact h.dead_keySet hd hks
  exact ⟨fun n plaintext => hdead.encrypt n plaintext, fun stored hv2 => hdead.decrypt hv2⟩

theorem phases_of_create {key : K} {now : ℚ} (hcreate : w.create k i key now phase = some w')
    {j : ℕ} (hj : j ≠ k) : w'.phases j = w.phases j := by
  obtain ⟨w₁, hinsert, rfl⟩ := Option.map_eq_some_iff.mp hcreate
  obtain ⟨-, hwrite⟩ := Option.ite_none_right_eq_some.mp hinsert
  obtain ⟨keys, -, rfl⟩ := Option.map_eq_some_iff.mp hwrite
  rw [phases_setPhase, if_neg hj]

theorem phases_of_updateRow {p : KeyRow K → Bool} {f : KeyRow K → KeyRow K}
    {updated skipped : Phase K} (hupdate : w.updateRow k i p f updated skipped = some w') {j : ℕ}
    (hj : j ≠ k) : w'.phases j = w.phases j := by
  unfold updateRow at hupdate
  split_ifs at hupdate
  · obtain ⟨keys, -, rfl⟩ := Option.map_eq_some_iff.mp hupdate
    rw [phases_setPhase, if_neg hj]
  · obtain rfl := Option.some.inj hupdate
    rw [phases_setPhase, if_neg hj]

/-- An event moves its own transaction only. -/
theorem phases_of_step [DecidableEq K] {e : KeyEvent K} (hstep : w.step e = some w') {j : ℕ}
    (hj : j ≠ e.transaction) : w'.phases j = w.phases j := by
  have hset (w₁ : KeyStore K) (hw₁ : w₁.phases = w.phases) (phase : Phase K)
      (heq : some (w₁.setPhase e.transaction phase) = some w') : w'.phases j = w.phases j := by
    obtain rfl := Option.some.inj heq
    rw [phases_setPhase, if_neg hj, hw₁]
  cases e with
  | load k | destroy k | scan k | commit k =>
    simp only [KeyStore.step] at hstep
    split at hstep <;> first | contradiction | exact hset _ (by rfl) _ hstep
  | abort k => exact hset _ (by rfl) _ hstep
  | rotate k =>
    simp only [KeyStore.step] at hstep
    split at hstep <;>
      first
        | contradiction
        | exact hset _ rfl _ (Option.ite_none_left_eq_some.mp hstep).2
  | create k keyId key now =>
    simp only [KeyStore.step] at hstep
    split at hstep <;>
      first
        | contradiction
        | exact phases_of_create (Option.ite_none_right_eq_some.mp hstep).2 hj
  | replace k keyId key now =>
    simp only [KeyStore.step] at hstep
    split at hstep <;> first | contradiction | exact phases_of_create hstep hj
  | retire k i | shred k i =>
    simp only [KeyStore.step] at hstep
    split at hstep <;>
      first
        | contradiction
        | exact phases_of_updateRow (Option.ite_none_right_eq_some.mp hstep).2 hj
  | finish k keyId now =>
    simp only [KeyStore.step] at hstep
    split at hstep <;> try contradiction
    split_ifs at hstep
    · obtain ⟨w₁, hinsert, heq⟩ := Option.map_eq_some_iff.mp hstep
      obtain ⟨-, hwrite⟩ := Option.ite_none_right_eq_some.mp hinsert
      obtain ⟨keys, -, rfl⟩ := Option.map_eq_some_iff.mp hwrite
      exact hset _ (by rfl) _ (congrArg some heq)
    · exact hset w rfl _ hstep

/-- A single transaction is undisturbed. -/
theorem undisturbed_alone (h : w.Inv) (hidle : ∀ j, j ≠ k → w.phases j = .idle) {e : KeyEvent K}
    (he : e.transaction = k) : w.Undisturbed e := by
  subst he
  have hclosed (j : ℕ) (hj : j ≠ e.transaction) : (w.phases j).Closed := by
    rw [hidle j hj]
    trivial
  cases e with
  | create k keyId key now | replace k keyId key now =>
    intro j hj hs
    rw [hidle j hj] at hs
    exact hs
  | scan k => exact fun j hj i row hw => absurd (hclosed j hj) (h.writers i j hw)
  | commit k => exact fun _ j hj => .inl (hclosed j hj)
  | _ => trivial

/-- A single transaction destroys the keys undisturbed. -/
theorem run_undisturbed [DecidableEq K] {keys : List (KeyId × KeyRow K)} {l : List (KeyEvent K)}
    (hrun : Run Step (init keys) l w) (hl : ∀ e ∈ l, e.transaction = k) :
    Run (Guarded Undisturbed Step) (init keys) l w := by
  suffices h : ∀ w₀ : KeyStore K, w₀.Inv → (∀ j, j ≠ k → w₀.phases j = .idle) →
      Run Step w₀ l w → Run (Guarded Undisturbed Step) w₀ l w from
    h _ (inv_init keys) (fun _ _ => rfl) hrun
  clear hrun
  intro w₀ h hidle hrun
  induction hrun with
  | nil => exact .nil _
  | cons hstep _ ih =>
    obtain ⟨he, htail⟩ := List.forall_mem_cons.mp hl
    have hguard := undisturbed_alone h hidle he
    refine .cons ⟨hguard, hstep⟩ (ih htail (h.step hguard hstep) fun j hj => ?_)
    rw [phases_of_step hstep (he ▸ hj), hidle j hj]

/-! ### Samples -/

open Vault (sampleFernet sampleKeys sampleNewKey sampleOldKey)

/-- The name that the tombstone of a tenant without a key row would have. -/
def sampleTombstone : KeyId := ⟨"k3", by decide⟩

def sampleDestroy : List (KeyEvent Char) :=
  [.destroy 0, .scan 0, .shred 0 sampleOldKey, .finish 0 sampleTombstone 1, .commit 0]

/-- The keys are destroyed while a rotation has read them. -/
def sampleOverlap : List (KeyEvent Char) :=
  .rotate 1 :: (sampleDestroy ++
    [.replace 1 sampleNewKey 'b' 2, .retire 1 sampleOldKey, .commit 1])

/-- The committed keys, and whether a destroy has committed. -/
def sampleView (w : KeyStore Char) : List (Option (Wrapped Char)) × Bool :=
  ([sampleOldKey, sampleNewKey].map fun i => (w.keys.committed i).map KeyRow.wrapped, w.destroyed)

theorem destroyed_forever_sampleDestroy : ∃ w : KeyStore Char,
    Run (Guarded Undisturbed Step) (init sampleKeys) sampleDestroy w ∧
      AllTombs w.keys.committed ∧ ¬ (w.phases 1).Shreds ∧
        encrypt sampleFernet (w.loadCached (fun _ _ => some 'a') 1) 0 "new" =
          .error .destroyed := by
  have hview : (sampleDestroy.foldlM (fun (w : KeyStore Char) e => w.step e)
      (init sampleKeys)).map sampleView = some ([some .destroyed, none], true) := by
    decide +kernel
  obtain ⟨w, hw, heq⟩ := Option.map_eq_some_iff.mp hview
  have hrun := Run.of_foldlM hw
  have hidle : w.phases 1 = .idle :=
    hrun.invariant_of_forall (I := fun w => w.phases 1 = .idle)
      (P := fun e => e.transaction = 0)
      (fun w e w' he hidle hstep => (phases_of_step hstep (by rw [he]; decide)).trans hidle)
      (by decide) rfl
  have hs : ¬ (w.phases 1).Shreds := by rw [hidle]; exact id
  have hguarded := run_undisturbed hrun (k := 0) (by decide)
  obtain ⟨hall, hkeys⟩ := destroyed_forever hguarded (Prod.mk.inj heq).2 sampleFernet
    fun _ _ => some 'a'
  exact ⟨w, hguarded, hall, hs, ((hkeys 1 hs).2 _ (.inl rfl)).1 0 "new"⟩

/-- A rotation that has read the keys before they were destroyed creates a key afterwards. -/
theorem key_after_destroy :
    ¬∀ (K : Type) (_ : DecidableEq K) (keys : List (KeyId × KeyRow K)) (l : List (KeyEvent K))
      (w : KeyStore K), Run Step (init keys) l w → w.destroyed = true →
        AllTombs w.keys.committed := by
  intro hall
  have hview : (sampleOverlap.foldlM (fun (w : KeyStore Char) e => w.step e)
      (init sampleKeys)).map sampleView = some ([some .destroyed, some (.dek 'b')], true) := by
    decide +kernel
  obtain ⟨w, hw, heq⟩ := Option.map_eq_some_iff.mp hview
  obtain ⟨hkeys, hd⟩ := Prod.mk.inj heq
  have hnew : (w.keys.committed sampleNewKey).map KeyRow.wrapped = some (.dek 'b') :=
    (List.cons.inj (List.cons.inj hkeys).2).1
  obtain ⟨row, hrow, hwrapped⟩ := Option.map_eq_some_iff.mp hnew
  have htomb := hall Char _ sampleKeys _ w (Run.of_foldlM hw) hd sampleNewKey row hrow
  rw [hwrapped] at htomb
  cases htomb

end Steps

end KeyStore

end Nodeglow.Secrets
