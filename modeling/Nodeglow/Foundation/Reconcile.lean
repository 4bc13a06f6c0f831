import Mathlib.Data.List.Induction
import Mathlib.Data.List.Nodup
import Mathlib.Data.List.Pairwise

/-!
# Reconciling rows with entries

Entries from outside are reconciled with the rows of a table, one after the other. An entry has a
key and a name. It belongs to the row that carries its key, or else to one of its name, which it is
merged into, and which carries its key from then on; where there is neither, a row is created. The
rows are found by two indexes that are built once, and to which only the created rows are added.

So the indexes are out of date as soon as a row was merged: an entry can find by name the row of
another one. If the entries are apart in the indexes as they are built (`Separated`), this does not
happen, and every entry has one row of its own.

## Main definitions

* `Reconciler`, `Reconciler.State`, `Reconciler.run` — the loop over the entries.
* `Reconciler.Separated` — no two entries belong to the same row.

## Main results

* `Reconciler.rows_run` — the rows after the loop.
* `Reconciler.existsUnique_label` — every entry has exactly one row.
* `Reconciler.exists_of_label` — the row that carries an entry's key stays its row.
* `Reconciler.run_eq_self` — when nothing changes.
-/

namespace Nodeglow

/-- Rows and entries: an indexed row can be found by the key that it carries. -/
structure Reconciler (ρ ε κ ν : Type*) where
  id : ρ → ℕ
  label : ρ → Option κ
  indexed : ρ → Bool
  rowName : ρ → ν
  key : ε → κ
  name : ε → ν
  merge : ε → ρ → ρ
  create : ε → ℕ → ρ
  id_merge : ∀ e h, id (merge e h) = id h
  id_create : ∀ e n, id (create e n) = n
  label_merge : ∀ e h, label (merge e h) = some (key e)
  label_create : ∀ e n, label (create e n) = some (key e)

namespace Reconciler

variable {ρ ε κ ν : Type*}

/-! ### Indexes -/

section Index

variable [DecidableEq κ]

/-- The index of the rows by a value that a row may have; of the rows with one value, the last one
counts. -/
def index (id : ρ → ℕ) (f : ρ → Option κ) (rows : List ρ) : κ → Option ℕ :=
  rows.foldl
    (fun ix h =>
      match f h with
      | some k => Function.update ix k (some (id h))
      | none => ix)
    fun _ => none

variable {id : ρ → ℕ} {f : ρ → Option κ} {rows : List ρ} {k : κ} {i : ℕ}

theorem index_append_singleton (h : ρ) : index id f (rows ++ [h]) k =
    if f h = some k then some (id h) else index id f rows k := by
  rw [index, List.foldl_append, List.foldl_cons, List.foldl_nil]
  cases hf : f h with
  | none => simp [index]
  | some k' => simp [index, Function.update_apply, eq_comm]

theorem exists_of_index (h : index id f rows k = some i) : ∃ r ∈ rows, f r = some k ∧ id r = i := by
  induction rows using List.reverseRecOn with
  | nil => cases h
  | append_singleton rows r ih =>
    rw [index_append_singleton] at h
    split_ifs at h with hr
    · exact ⟨r, by simp, hr, Option.some.inj h⟩
    · obtain ⟨r', hr', hf⟩ := ih h
      exact ⟨r', List.mem_append_left _ hr', hf⟩

theorem index_eq_none_iff : index id f rows k = none ↔ ∀ r ∈ rows, f r ≠ some k := by
  induction rows using List.reverseRecOn with
  | nil => simp [index]
  | append_singleton rows r ih =>
    rw [index_append_singleton]
    split_ifs with hr
    · simp [hr]
    · simp [ih, hr, or_imp, forall_and]

/-- The only row with a value is the one in the index. -/
theorem index_of_unique {r : ρ} (hr : r ∈ rows) (hf : f r = some k)
    (hunique : ∀ r' ∈ rows, f r' = some k → r' = r) : index id f rows k = some (id r) := by
  cases hix : index id f rows k with
  | none => exact absurd hf (index_eq_none_iff.mp hix r hr)
  | some i =>
    obtain ⟨r', hr', hf', rfl⟩ := exists_of_index hix
    rw [hunique r' hr' hf']

end Index

/-! ### The loop -/

/-- The rows, the next id, and the indexes. -/
structure State (ρ κ ν : Type*) where
  rows : List ρ
  next : ℕ
  byKey : κ → Option ℕ
  byName : ν → Option ℕ

variable (R : Reconciler ρ ε κ ν)

/-- The row an entry belongs to. -/
def target (s : State ρ κ ν) (e : ε) : Option ℕ :=
  (s.byKey (R.key e)).or (s.byName (R.name e))

variable [DecidableEq κ] [DecidableEq ν]

/-- The key under which a row is found. -/
def indexKey (h : ρ) : Option κ := if R.indexed h then R.label h else none

/-- The indexes as they are built. -/
def start (rows : List ρ) (next : ℕ) : State ρ κ ν where
  rows := rows
  next := next
  byKey := index R.id R.indexKey rows
  byName := index R.id (fun h => some (R.rowName h)) rows

/-- Reconcile one entry. -/
def step (s : State ρ κ ν) (e : ε) : State ρ κ ν :=
  match R.target s e with
  | some i => { s with rows := s.rows.map fun h => if R.id h = i then R.merge e h else h }
  | none =>
    { rows := s.rows ++ [R.create e s.next]
      next := s.next + 1
      byKey := Function.update s.byKey (R.key e) (some s.next)
      byName := Function.update s.byName (R.name e) (some s.next) }

/-- Reconcile the entries, one after the other. -/
def run (s : State ρ κ ν) (entries : List ε) : State ρ κ ν := entries.foldl R.step s

variable {R} {s : State ρ κ ν} {rows : List ρ} {next i : ℕ} {e e' : ε} {entries : List ε} {g h : ρ}

theorem step_of_some (h : R.target s e = some i) : R.step s e =
    { s with rows := s.rows.map fun h => if R.id h = i then R.merge e h else h } := by
  rw [step, h]

theorem step_of_none (h : R.target s e = none) : R.step s e =
    { rows := s.rows ++ [R.create e s.next]
      next := s.next + 1
      byKey := Function.update s.byKey (R.key e) (some s.next)
      byName := Function.update s.byName (R.name e) (some s.next) } := by
  rw [step, h]

/-- The ids are distinct, and the next one is not in use. -/
structure Valid (R : Reconciler ρ ε κ ν) (rows : List ρ) (next : ℕ) : Prop where
  nodup : (rows.map R.id).Nodup
  lt : ∀ h ∈ rows, R.id h < next

omit [DecidableEq κ] [DecidableEq ν] in
theorem Valid.eq_of_id (hvalid : Valid R rows next) (hg : g ∈ rows) (hh : h ∈ rows)
    (hid : R.id g = R.id h) : g = h :=
  List.inj_on_of_nodup_map hvalid.nodup hg hh hid

theorem Valid.step (hvalid : Valid R s.rows s.next) (e : ε) :
    Valid R (R.step s e).rows (R.step s e).next := by
  cases htarget : R.target s e with
  | some i =>
    have hids : ∀ h, R.id (if R.id h = i then R.merge e h else h) = R.id h := by
      intro h
      split_ifs
      · exact R.id_merge e h
      · rfl
    rw [step_of_some htarget]
    refine ⟨?_, ?_⟩
    · rw [List.map_map]
      exact (List.map_congr_left fun h _ => hids h) ▸ hvalid.nodup
    · intro h hh
      obtain ⟨h', hh', rfl⟩ := List.mem_map.mp hh
      rw [hids]
      exact hvalid.lt h' hh'
  | none =>
    rw [step_of_none htarget]
    refine ⟨?_, ?_⟩
    · rw [List.map_append, List.nodup_append]
      refine ⟨hvalid.nodup, List.nodup_singleton _, ?_⟩
      intro i hi j hj
      obtain ⟨h, hh, rfl⟩ := List.mem_map.mp hi
      obtain rfl : j = s.next := by simpa [R.id_create] using hj
      exact Nat.ne_of_lt (hvalid.lt h hh)
    · intro h hh
      rcases List.mem_append.mp hh with hh | hh
      · exact Nat.lt_succ_of_lt (hvalid.lt h hh)
      · obtain rfl := List.mem_singleton.mp hh
        rw [R.id_create]
        exact Nat.lt_succ_self s.next

theorem Valid.run (hvalid : Valid R s.rows s.next) (entries : List ε) :
    Valid R (R.run s entries).rows (R.run s entries).next := by
  induction entries generalizing s with
  | nil => exact hvalid
  | cons e entries ih => exact ih (hvalid.step e)

/-- **When nothing changes**: every entry belongs to a row that is as the entry has it. -/
theorem run_eq_self (hsame : ∀ e ∈ entries, ∃ i, R.target s e = some i ∧
    ∀ h ∈ s.rows, R.id h = i → R.merge e h = h) : R.run s entries = s := by
  induction entries with
  | nil => rfl
  | cons e entries ih =>
    obtain ⟨⟨i, htarget, hmerge⟩, hrest⟩ := List.forall_mem_cons.mp hsame
    have hstep : R.step s e = s := by
      have hrows : (s.rows.map fun h => if R.id h = i then R.merge e h else h) = s.rows := by
        refine (List.map_congr_left fun h hh => ?_).trans (List.map_id s.rows)
        split_ifs with hid
        · exact hmerge h hh hid
        · rfl
      rw [step_of_some htarget, hrows]
    rw [run, List.foldl_cons, hstep]
    exact ih hrest

/-! ### The rows after the loop -/

/-- What a row becomes. -/
def mergeAll (R : Reconciler ρ ε κ ν) (s : State ρ κ ν) (entries : List ε) (h : ρ) : ρ :=
  match entries.find? fun e => R.target s e = some (R.id h) with
  | some e => R.merge e h
  | none => h

/-- The rows that are created. -/
def created (R : Reconciler ρ ε κ ν) : ℕ → List ε → List ρ
  | _, [] => []
  | n, e :: entries => R.create e n :: created R (n + 1) entries

/-- The entries that belong to no row. -/
def unmatched (R : Reconciler ρ ε κ ν) (s : State ρ κ ν) (entries : List ε) : List ε :=
  entries.filter fun e => R.target s e = none

/-- The entries are apart: none belongs to the row of another one, and none is found in the row that
another one creates. -/
def Independent (R : Reconciler ρ ε κ ν) (s : State ρ κ ν) (entries : List ε) : Prop :=
  entries.Pairwise fun e e' =>
    (∀ i, R.target s e = some i → R.target s e' ≠ some i) ∧
      (R.target s e = none → R.key e' ≠ R.key e ∧ (s.byKey (R.key e') = none →
        R.name e' ≠ R.name e))

omit [DecidableEq κ] [DecidableEq ν] in
theorem mergeAll_of_forall (hnone : ∀ e ∈ entries, R.target s e ≠ some (R.id h)) :
    mergeAll R s entries h = h := by
  have hfind : entries.find? (fun e => R.target s e = some (R.id h)) = none := by
    simpa [List.find?_eq_none] using hnone
  rw [mergeAll, hfind]

omit [DecidableEq κ] [DecidableEq ν] in
theorem mergeAll_congr {t : State ρ κ ν} (ht : ∀ e ∈ entries, R.target t e = R.target s e) :
    mergeAll R t entries h = mergeAll R s entries h := by
  induction entries with
  | nil => rfl
  | cons e entries ih =>
    obtain ⟨he, hrest⟩ := List.forall_mem_cons.mp ht
    have hfind := ih hrest
    unfold mergeAll at hfind ⊢
    rw [List.find?_cons, List.find?_cons, he]
    cases decide (R.target s e = some (R.id h)) with
    | true => rfl
    | false => exact hfind

omit [DecidableEq κ] [DecidableEq ν] in
/-- A row is merged with an entry, and the others do not find it. -/
theorem mergeAll_cons_of_some (he : R.target s e = some i)
    (hrest : ∀ e' ∈ entries, R.target s e' ≠ some i) :
    mergeAll R s entries (if R.id h = i then R.merge e h else h) =
      mergeAll R s (e :: entries) h := by
  split_ifs with hid
  · subst hid
    have hfind : (e :: entries).find? (fun e => R.target s e = some (R.id h)) = some e := by
      rw [List.find?_cons_of_pos (by simpa using he)]
    rw [mergeAll_of_forall (by rwa [R.id_merge]), mergeAll, hfind]
  · have hne : R.target s e ≠ some (R.id h) := by
      rw [he]
      exact fun heq => hid (Option.some.inj heq).symm
    rw [mergeAll, mergeAll, List.find?_cons_of_neg (by simpa using hne)]

/-- An entry that creates a row changes no index at the places of those that are apart from it. -/
theorem target_step_of_none (he : R.target s e = none) (hkey : R.key e' ≠ R.key e)
    (hname : s.byKey (R.key e') = none → R.name e' ≠ R.name e) :
    R.target (R.step s e) e' = R.target s e' := by
  rw [step_of_none he]
  simp only [target, Function.update_of_ne hkey]
  cases hbyKey : s.byKey (R.key e') with
  | some i => rfl
  | none => rw [Function.update_of_ne (hname hbyKey)]

/-- The entries after one that creates a row belong to the rows that they belonged to before. -/
theorem target_step_of_independent (hindependent : Independent R s (e :: entries))
    (he : R.target s e = none) : ∀ e' ∈ entries, R.target (R.step s e) e' = R.target s e' := by
  intro e' he'
  obtain ⟨hkey, hname⟩ := ((List.pairwise_cons.mp hindependent).1 e' he').2 he
  exact target_step_of_none he hkey hname

theorem Independent.step (hindependent : Independent R s (e :: entries)) :
    Independent R (R.step s e) entries := by
  obtain ⟨hhead, hrest⟩ := List.pairwise_cons.mp hindependent
  cases he : R.target s e with
  | some i =>
    rw [step_of_some he]
    exact hrest
  | none =>
    have htarget := target_step_of_independent hindependent he
    refine hrest.imp_of_mem fun {a b} ha hb hab => ?_
    have hbyKey : (R.step s e).byKey (R.key b) = s.byKey (R.key b) := by
      rw [step_of_none he]
      exact Function.update_of_ne ((hhead b hb).2 he).1 _ _
    rwa [htarget a ha, htarget b hb, hbyKey]

omit [DecidableEq κ] [DecidableEq ν] in
theorem exists_of_mem_created (n : ℕ) (h : g ∈ created R n entries) :
    ∃ e ∈ entries, ∃ i, g = R.create e i := by
  induction entries generalizing n with
  | nil => cases h
  | cons e entries ih =>
    rcases List.mem_cons.mp h with rfl | h
    · exact ⟨e, List.mem_cons_self, n, rfl⟩
    · obtain ⟨e', he', i, rfl⟩ := ih (n + 1) h
      exact ⟨e', List.mem_cons_of_mem e he', i, rfl⟩

omit [DecidableEq κ] [DecidableEq ν] in
theorem exists_mem_created (n : ℕ) (he : e ∈ entries) :
    ∃ i, R.create e i ∈ created R n entries := by
  induction entries generalizing n with
  | nil => cases he
  | cons e' entries ih =>
    rcases List.mem_cons.mp he with rfl | he
    · exact ⟨n, List.mem_cons_self⟩
    · obtain ⟨i, hi⟩ := ih (n + 1) he
      exact ⟨i, List.mem_cons_of_mem _ hi⟩

omit [DecidableEq κ] [DecidableEq ν] in
theorem map_label_created (n : ℕ) :
    (created R n entries).map R.label = entries.map fun e => some (R.key e) := by
  induction entries generalizing n with
  | nil => rfl
  | cons e entries ih => rw [created, List.map_cons, List.map_cons, ih, R.label_create]

/-- **The rows after the loop**, by the indexes as they were before. -/
theorem rows_run (hbound : ∀ e ∈ entries, ∀ i, R.target s e = some i → i < s.next)
    (hindependent : Independent R s entries) :
    (R.run s entries).rows =
      s.rows.map (mergeAll R s entries) ++ created R s.next (unmatched R s entries) := by
  induction entries generalizing s with
  | nil =>
    have hrows : s.rows.map (mergeAll R s []) = s.rows :=
      (List.map_congr_left fun h _ => mergeAll_of_forall (by simp)).trans (List.map_id _)
    simp [run, unmatched, created, hrows]
  | cons e entries ih =>
    obtain ⟨hlt, hbound⟩ := List.forall_mem_cons.mp hbound
    rw [run, List.foldl_cons]
    cases he : R.target s e with
    | some i =>
      have htarget : ∀ e', R.target (R.step s e) e' = R.target s e' := by
        rw [step_of_some he]
        exact fun _ => rfl
      have hnext : (R.step s e).next = s.next := by rw [step_of_some he]
      have hunmatched : unmatched R (R.step s e) entries = unmatched R s (e :: entries) := by
        simp [unmatched, htarget, he]
      refine (ih (by simpa [htarget, hnext] using hbound) hindependent.step).trans ?_
      rw [hunmatched, hnext, step_of_some he, List.map_map]
      congr 1
      refine List.map_congr_left fun h _ => ?_
      exact mergeAll_cons_of_some he fun e' he' =>
        ((List.pairwise_cons.mp hindependent).1 e' he').1 i he
    | none =>
      have htarget := target_step_of_independent hindependent he
      have hrows : (R.step s e).rows = s.rows ++ [R.create e s.next] := by rw [step_of_none he]
      have hnext : (R.step s e).next = s.next + 1 := by rw [step_of_none he]
      have hunmatched : unmatched R (R.step s e) entries = unmatched R s entries :=
        List.filter_congr fun e' he' => by rw [htarget e' he']
      have hbound' : ∀ e' ∈ entries, ∀ i, R.target (R.step s e) e' = some i →
          i < (R.step s e).next := by
        intro e' he' i hi
        rw [htarget e' he'] at hi
        rw [hnext]
        exact Nat.lt_succ_of_lt (hbound e' he' i hi)
      have hnew : mergeAll R s entries (R.create e s.next) = R.create e s.next := by
        refine mergeAll_of_forall fun e' he' htarget' => ?_
        rw [R.id_create] at htarget'
        exact Nat.lt_irrefl _ (hbound e' he' _ htarget')
      have hcons : ∀ h, mergeAll R (R.step s e) entries h = mergeAll R s (e :: entries) h := by
        intro h
        rw [mergeAll_congr htarget, mergeAll, mergeAll, List.find?_cons_of_neg (by simp [he])]
      have hcreated : unmatched R s (e :: entries) = e :: unmatched R s entries := by
        rw [unmatched, List.filter_cons_of_pos (by simpa using he)]
        rfl
      refine (ih hbound' hindependent.step).trans ?_
      rw [hrows, hnext, hunmatched, hcreated, created, List.map_append, List.append_assoc,
        List.map_singleton, mergeAll_congr htarget, hnew, List.singleton_append]
      congr 1
      exact List.map_congr_left fun h _ => hcons h

/-! ### Entries that are apart -/

/-- The row that an entry finds by its key, in the index as it is built. -/
def keyRow (R : Reconciler ρ ε κ ν) (rows : List ρ) (e : ε) : Option ℕ :=
  index R.id R.indexKey rows (R.key e)

/-- The row that an entry finds by its name. -/
def nameRow (R : Reconciler ρ ε κ ν) (rows : List ρ) (e : ε) : Option ℕ :=
  index R.id (fun h => some (R.rowName h)) rows (R.name e)

/-- The entries are apart: their keys are distinct; the names of those without a row of their key
are distinct, and none of them is the name of the row of another entry; and the rows that carry the
key of an entry without being found by it are found by its name. -/
structure Separated (R : Reconciler ρ ε κ ν) (rows : List ρ) (entries : List ε) : Prop where
  keys : entries.Pairwise fun e e' => R.key e ≠ R.key e'
  names : entries.Pairwise fun e e' =>
    R.keyRow rows e = none → R.keyRow rows e' = none → R.name e ≠ R.name e'
  adopted : ∀ e ∈ entries, R.keyRow rows e = none → ∀ e' ∈ entries,
    R.keyRow rows e' ≠ none → R.nameRow rows e ≠ R.keyRow rows e'
  foreign : ∀ e ∈ entries, ∀ h ∈ rows, R.indexed h = false → R.label h = some (R.key e) →
    R.keyRow rows e = none ∧ R.nameRow rows e = some (R.id h)

/-- No two indexed rows carry the same key. -/
def UniqueKeys (R : Reconciler ρ ε κ ν) (rows : List ρ) : Prop :=
  ∀ k, ∀ g ∈ rows, ∀ h ∈ rows, R.indexKey g = some k → R.indexKey h = some k → g = h

theorem target_start : R.target (R.start rows next) e =
    (R.keyRow rows e).or (R.nameRow rows e) := rfl

omit [DecidableEq κ] [DecidableEq ν] in
theorem indexKey_eq_some_iff {k : κ} :
    R.indexKey h = some k ↔ R.indexed h = true ∧ R.label h = some k := by
  rw [indexKey, Option.ite_none_right_eq_some]

theorem exists_of_target (h : R.target (R.start rows next) e = some i) :
    ∃ h ∈ rows, R.id h = i := by
  rw [target_start, Option.or_eq_some_iff] at h
  rcases h with h | ⟨-, h⟩
  · obtain ⟨r, hr, -, hid⟩ := exists_of_index h
    exact ⟨r, hr, hid⟩
  · obtain ⟨r, hr, -, hid⟩ := exists_of_index h
    exact ⟨r, hr, hid⟩

section Separated

variable (hvalid : Valid R rows next) (hkeys : UniqueKeys R rows)
  (hseparated : Separated R rows entries)
include hvalid hseparated

theorem Separated.independent : Independent R (R.start rows next) entries := by
  refine (hseparated.keys.and hseparated.names).imp_of_mem fun {e e'} he he' hpair => ?_
  obtain ⟨hkey, hname⟩ := hpair
  refine ⟨fun i hi hi' => ?_, fun hnone => ⟨hkey.symm, fun hnone' => ?_⟩⟩
  · rw [target_start, Option.or_eq_some_iff] at hi hi'
    rcases hi with hi | ⟨hnone, hi⟩ <;> rcases hi' with hi' | ⟨hnone', hi'⟩
    · obtain ⟨h, hh, hlabel, rfl⟩ := exists_of_index hi
      obtain ⟨h', hh', hlabel', hid⟩ := exists_of_index hi'
      rw [hvalid.eq_of_id hh' hh hid, hlabel] at hlabel'
      exact hkey (Option.some.inj hlabel')
    · exact hseparated.adopted e' he' hnone' e he (by simp [hi]) (hi'.trans hi.symm)
    · exact hseparated.adopted e he hnone e' he' (by simp [hi']) (hi.trans hi'.symm)
    · obtain ⟨h, hh, hlabel, rfl⟩ := exists_of_index hi
      obtain ⟨h', hh', hlabel', hid⟩ := exists_of_index hi'
      rw [hvalid.eq_of_id hh' hh hid, hlabel] at hlabel'
      exact hname hnone hnone' (Option.some.inj hlabel')
  · rw [target_start, Option.or_eq_none_iff] at hnone
    exact (hname hnone.1 hnone').symm

theorem Separated.eq_of_target (he : e ∈ entries) (he' : e' ∈ entries)
    (hi : R.target (R.start rows next) e = some i)
    (hi' : R.target (R.start rows next) e' = some i) : e = e' := by
  by_contra hne
  have hsymm : Std.Symm fun e e' : ε =>
      ∀ i, R.target (R.start rows next) e = some i → R.target (R.start rows next) e' ≠ some i :=
    ⟨fun _ _ h i hi hi' => h i hi' hi⟩
  exact ((hseparated.independent hvalid).imp And.left).forall he he' hne i hi hi'

theorem Separated.rows_run : (R.run (R.start rows next) entries).rows =
    rows.map (mergeAll R (R.start rows next) entries) ++
      created R next (unmatched R (R.start rows next) entries) := by
  refine Reconciler.rows_run (fun e he i hi => ?_) (hseparated.independent hvalid)
  obtain ⟨h, hh, rfl⟩ := exists_of_target hi
  exact hvalid.lt h hh

/-- A row after the loop is one that no entry belongs to, or is merged, or created. -/
theorem Separated.mem_run_cases (hg : g ∈ (R.run (R.start rows next) entries).rows) :
    (g ∈ rows ∧ ∀ e ∈ entries, R.target (R.start rows next) e ≠ some (R.id g)) ∨
      (∃ h ∈ rows, ∃ e ∈ entries, R.target (R.start rows next) e = some (R.id h) ∧
        g = R.merge e h) ∨
      ∃ e ∈ entries, R.target (R.start rows next) e = none ∧
        g ∈ created R next (unmatched R (R.start rows next) entries) ∧ ∃ n, g = R.create e n := by
  rw [hseparated.rows_run hvalid] at hg
  rcases List.mem_append.mp hg with hg | hg
  · obtain ⟨h, hh, rfl⟩ := List.mem_map.mp hg
    cases hfind : entries.find? fun e => R.target (R.start rows next) e = some (R.id h) with
    | none =>
      have hnone : ∀ e ∈ entries, R.target (R.start rows next) e ≠ some (R.id h) := by
        simpa [List.find?_eq_none] using hfind
      rw [mergeAll_of_forall hnone]
      exact .inl ⟨hh, hnone⟩
    | some e =>
      have htarget := List.find?_some hfind
      refine .inr (.inl ⟨h, hh, e, List.mem_of_find?_eq_some hfind, by simpa using htarget, ?_⟩)
      rw [mergeAll, hfind]
  · obtain ⟨e, he, n, hcreate⟩ := exists_of_mem_created next hg
    obtain ⟨he, hnone⟩ := List.mem_filter.mp he
    exact .inr (.inr ⟨e, he, by simpa using hnone, hg, n, hcreate⟩)

theorem Separated.merge_mem_run (hh : h ∈ rows) (he : e ∈ entries)
    (htarget : R.target (R.start rows next) e = some (R.id h)) :
    R.merge e h ∈ (R.run (R.start rows next) entries).rows := by
  rw [hseparated.rows_run hvalid, List.mem_append, List.mem_map]
  refine .inl ⟨h, hh, ?_⟩
  cases hfind : entries.find? fun e => R.target (R.start rows next) e = some (R.id h) with
  | none => exact absurd htarget (by simpa using List.find?_eq_none.mp hfind e he)
  | some e' =>
    have htarget' : R.target (R.start rows next) e' = some (R.id h) := by
      simpa using List.find?_some hfind
    rw [mergeAll, hfind]
    dsimp only
    rw [hseparated.eq_of_target hvalid he (List.mem_of_find?_eq_some hfind) htarget htarget']

theorem Separated.exists_label (he : e ∈ entries) :
    ∃ g ∈ (R.run (R.start rows next) entries).rows, R.label g = some (R.key e) := by
  cases htarget : R.target (R.start rows next) e with
  | some i =>
    obtain ⟨h, hh, rfl⟩ := exists_of_target htarget
    exact ⟨_, hseparated.merge_mem_run hvalid hh he htarget, R.label_merge e h⟩
  | none =>
    have hmem : e ∈ unmatched R (R.start rows next) entries :=
      List.mem_filter.mpr ⟨he, by simpa using htarget⟩
    obtain ⟨i, hi⟩ := exists_mem_created next hmem
    refine ⟨R.create e i, ?_, R.label_create e i⟩
    rw [hseparated.rows_run hvalid]
    exact List.mem_append_right _ hi

include hkeys

omit hvalid in
/-- An entry belongs to the row that carries its key. -/
theorem Separated.target_of_label (hh : h ∈ rows) (he : e ∈ entries)
    (hlabel : R.label h = some (R.key e)) :
    R.target (R.start rows next) e = some (R.id h) := by
  rw [target_start]
  cases hindexed : R.indexed h with
  | true =>
    have hkey : R.indexKey h = some (R.key e) := indexKey_eq_some_iff.mpr ⟨hindexed, hlabel⟩
    have hrow : R.keyRow rows e = some (R.id h) :=
      index_of_unique hh hkey fun g hg hgkey => hkeys _ g hg h hh hgkey hkey
    rw [hrow, Option.some_or]
  | false =>
    obtain ⟨hnone, hname⟩ := hseparated.foreign e he h hh hindexed hlabel
    rw [hnone, hname, Option.none_or]

/-- **The row that carries an entry's key stays its row.** -/
theorem exists_of_label (hh : h ∈ rows) (he : e ∈ entries) (hlabel : R.label h = some (R.key e)) :
    ∃ g ∈ (R.run (R.start rows next) entries).rows,
      R.id g = R.id h ∧ R.label g = some (R.key e) :=
  ⟨_, hseparated.merge_mem_run hvalid hh he (hseparated.target_of_label hkeys hh he hlabel),
    R.id_merge e h, R.label_merge e h⟩

/-- The rows that carry the key of an entry are what the entry makes. -/
theorem Separated.cases_of_label (he : e ∈ entries)
    (hg : g ∈ (R.run (R.start rows next) entries).rows) (hlabel : R.label g = some (R.key e)) :
    (∃ h ∈ rows, R.target (R.start rows next) e = some (R.id h) ∧ g = R.merge e h) ∨
      R.target (R.start rows next) e = none ∧
        g ∈ created R next (unmatched R (R.start rows next) entries) ∧ ∃ n, g = R.create e n := by
  have hinj : ∀ e' ∈ entries, R.key e' = R.key e → e' = e := by
    intro e' he' hkey
    by_contra hne
    have hsymm : Std.Symm fun e e' : ε => R.key e ≠ R.key e' := ⟨fun _ _ h => h.symm⟩
    exact hseparated.keys.forall he' he hne hkey
  rcases hseparated.mem_run_cases hvalid hg with
    ⟨hold, hnone⟩ | ⟨h, hh, e', he', htarget, rfl⟩ | ⟨e', he', htarget, hcreated, n, rfl⟩
  · exact absurd (hseparated.target_of_label hkeys hold he hlabel) (hnone e he)
  · rw [R.label_merge, Option.some.injEq] at hlabel
    obtain rfl := hinj e' he' hlabel
    exact .inl ⟨h, hh, htarget, rfl⟩
  · rw [R.label_create, Option.some.injEq] at hlabel
    obtain rfl := hinj e' he' hlabel
    exact .inr ⟨htarget, hcreated, n, rfl⟩

theorem Separated.eq_of_label (he : e ∈ entries)
    (hg : g ∈ (R.run (R.start rows next) entries).rows)
    (hh : h ∈ (R.run (R.start rows next) entries).rows)
    (hglabel : R.label g = some (R.key e)) (hhlabel : R.label h = some (R.key e)) : g = h := by
  rcases hseparated.cases_of_label hvalid hkeys he hg hglabel with
      ⟨g', hg', hgtarget, rfl⟩ | ⟨hgtarget, hgcreated, -⟩ <;>
    rcases hseparated.cases_of_label hvalid hkeys he hh hhlabel with
      ⟨h', hh', hhtarget, rfl⟩ | ⟨hhtarget, hhcreated, -⟩
  · rw [hgtarget, Option.some.injEq] at hhtarget
    rw [hvalid.eq_of_id hg' hh' hhtarget]
  · rw [hgtarget] at hhtarget
    cases hhtarget
  · rw [hgtarget] at hhtarget
    cases hhtarget
  · have hnodup :
        ((created R next (unmatched R (R.start rows next) entries)).map R.label).Nodup := by
      rw [map_label_created]
      refine List.Pairwise.map _ ?_ (hseparated.keys.filter _)
      exact fun _ _ hne heq => hne (Option.some.inj heq)
    exact List.inj_on_of_nodup_map hnodup hgcreated hhcreated (hglabel.trans hhlabel.symm)

/-- **Every entry has exactly one row.** -/
theorem existsUnique_label (he : e ∈ entries) :
    ∃! g, g ∈ (R.run (R.start rows next) entries).rows ∧ R.label g = some (R.key e) := by
  obtain ⟨g, hg, hlabel⟩ := hseparated.exists_label hvalid he
  exact ⟨g, ⟨hg, hlabel⟩, fun h hh =>
    hseparated.eq_of_label hvalid hkeys he hh.1 hg hh.2 hlabel⟩

theorem UniqueKeys.run : UniqueKeys R (R.run (R.start rows next) entries).rows := by
  intro k g hg h hh hgkey hhkey
  have hglabel := (indexKey_eq_some_iff.mp hgkey).2
  have hhlabel := (indexKey_eq_some_iff.mp hhkey).2
  by_cases hentry : ∃ e ∈ entries, R.key e = k
  · obtain ⟨e, he, rfl⟩ := hentry
    exact hseparated.eq_of_label hvalid hkeys he hg hh hglabel hhlabel
  · have hold : ∀ r ∈ (R.run (R.start rows next) entries).rows, R.label r = some k → r ∈ rows := by
      intro r hr hlabel
      rcases hseparated.mem_run_cases hvalid hr with
        ⟨hold, -⟩ | ⟨h, -, e, he, -, rfl⟩ | ⟨e, he, -, -, n, rfl⟩
      · exact hold
      · exact absurd ⟨e, he, Option.some.inj ((R.label_merge e h).symm.trans hlabel)⟩ hentry
      · exact absurd ⟨e, he, Option.some.inj ((R.label_create e n).symm.trans hlabel)⟩ hentry
    exact hkeys k g (hold g hg hglabel) h (hold h hh hhlabel) hgkey hhkey

/-- **Reconciling again changes nothing**, in whatever order the rows are read, if every entry's row
is as the entry has it, and is found again. -/
theorem run_of_run {rows' : List ρ} {next' : ℕ}
    (hperm : rows'.Perm (R.run (R.start rows next) entries).rows)
    (hsame : ∀ e ∈ entries, ∀ g ∈ rows', R.label g = some (R.key e) →
      R.merge e g = g ∧ (R.indexed g = false → R.rowName g = R.name e ∧
        ∀ h ∈ rows', R.rowName h = R.name e → h = g)) :
    R.run (R.start rows' next') entries = R.start rows' next' := by
  have hids : (rows'.map R.id).Nodup :=
    (hperm.map R.id).nodup_iff.mpr (Valid.run (s := R.start rows next) hvalid entries).nodup
  refine run_eq_self fun e he => ?_
  obtain ⟨g, ⟨hg, hlabel⟩, hunique⟩ := existsUnique_label hvalid hkeys hseparated he
  have hg' : g ∈ rows' := hperm.mem_iff.mpr hg
  obtain ⟨hmerge, hfound⟩ := hsame e he g hg' hlabel
  have hcarrier : ∀ h ∈ rows', R.indexKey h = some (R.key e) → h = g := fun h hh hkey =>
    hunique h ⟨hperm.mem_iff.mp hh, (indexKey_eq_some_iff.mp hkey).2⟩
  refine ⟨R.id g, ?_, ?_⟩
  · rw [target_start]
    cases hindexed : R.indexed g with
    | true =>
      have hrow : R.keyRow rows' e = some (R.id g) :=
        index_of_unique hg' (indexKey_eq_some_iff.mpr ⟨hindexed, hlabel⟩) hcarrier
      rw [hrow, Option.some_or]
    | false =>
      have hrow : R.keyRow rows' e = none := by
        refine index_eq_none_iff.mpr fun h hh hkey => ?_
        obtain rfl := hcarrier h hh hkey
        rw [(indexKey_eq_some_iff.mp hkey).1] at hindexed
        cases hindexed
      obtain ⟨hname, honly⟩ := hfound hindexed
      have hnamed : R.nameRow rows' e = some (R.id g) :=
        index_of_unique hg' (congrArg some hname) fun h hh hhname =>
          honly h hh (Option.some.inj hhname)
      rw [hrow, hnamed, Option.none_or]
  · intro h hh hid
    rw [List.inj_on_of_nodup_map hids hh hg' hid, hmerge]

end Separated

end Reconciler

end Nodeglow
