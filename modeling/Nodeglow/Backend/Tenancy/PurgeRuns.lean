import Nodeglow.Backend.Tenancy.PurgeStatements

/-!
# Runs of the purge

The runs of the purge of one tenant, each of which may crash between two commits and is followed by
one that begins at the top, among the transactions of others. A foreign key never refuses a
statement; a run that returns leaves nothing of the tenant; and nothing of another tenant is
deleted, but for one thing. The preferences of a user go with the user, those in other tenants too
(`World.rows_of_others_deleted`).

Whether a user may be deleted is read before he is. The users of the tenant keep what they have in
other tenants as long as nobody gives one of them something there between the two
(`Undisturbed`).

## Main results

* `Progress.other`, `World.Sound.of_step` — one step of others, and of the purge.
* `World.purged` — every run.

Source: `ee/backend/nodeglow_ee/tenancy/purge.py`, lines 62–248.
-/

namespace Nodeglow.Tenancy.Purge

open Relational

variable {t : ℤ} {s s' : Storage} {w w' : World} {sortedTables : List Table}

/-- No table stands before one that it refers to, as in `sorted_tables`. -/
structure Sorted (sortedTables : List Table) : Prop where
  mem : ∀ x ∈ tenantTables, x ∈ sortedTables
  parents_first : sortedTables.Pairwise fun x y =>
    ∀ k ∈ schema.foreignKeys, ¬(k.child = x ∧ k.parent = y)

/-- Nothing of the tenant is left. -/
structure Complete (t : ℤ) (s : Storage) : Prop where
  rows : ∀ x ∈ tenantTables, NoRows t s.db x
  clickhouse : ∀ x, s.clickhouse x t = 0
  memberships : NoRows t s.db .tenantMemberships
  tenant : ∀ r ∈ s.db .tenants, r .id ≠ some (.int t)

/-- Nothing of another tenant is deleted. -/
structure Framed (t : ℤ) (s s' : Storage) : Prop where
  db : KeepsOthers t s.db s'.db
  clickhouse : ∀ x u, u ≠ t → s'.clickhouse x u = s.clickhouse x u
  leftovers : ∀ x rows, s.leftovers x = some rows →
    ∃ rows', s'.leftovers x = some rows' ∧ ∀ u, u ≠ t → rows' u = rows u

theorem Framed.of_db {db' : Db} (h : KeepsOthers t s.db db') : Framed t s { s with db := db' } :=
  ⟨h, fun _ _ _ => rfl, fun _ rows hrows => ⟨rows, hrows, fun _ _ => rfl⟩⟩

theorem Framed.refl (t : ℤ) (s : Storage) : Framed t s s :=
  .of_db (Confined.refl t s.db).keepsOthers

/-! ### Other writers -/

/-- Somebody writes, but adds and changes no row of the tenant. -/
structure OtherWriter (t : ℤ) (s s' : Storage) : Prop where
  keyed : schema.Keyed s'.db
  rows : ∀ x ∈ tenantTables, ∀ r ∈ s'.db x, ofTenant t r = true → r ∈ s.db x
  memberships : ∀ r ∈ s'.db .tenantMemberships, ofTenant t r = true →
    ∃ r' ∈ s.db .tenantMemberships, ofTenant t r' = true ∧ r' .userId = r .userId
  tenant : ∀ r ∈ s'.db .tenants, r .id = some (.int t) → r ∈ s.db .tenants
  clickhouse : ∀ x, s'.clickhouse x t ≤ s.clickhouse x t

/-- While the purge reads about the members, nobody gives one of them a membership of another
tenant, one of a provider, or the operator flag. -/
def Undisturbed (t : ℤ) (s s' : Storage) : Stage → Prop
  | .examine members _ _ => ∀ u ∈ members, ∀ q ∈ questions [u],
      q.keeps t s'.db = true → q.keeps t s.db = true
  | _ => True

namespace World

/-- No other writer writes for the tenant. -/
def NoOtherWriter (t : ℤ) (w : World) (e : Event) : Prop :=
  ∀ s', e = .other s' → OtherWriter t w.stores s'

def MembersUndisturbed (t : ℤ) (w : World) (e : Event) : Prop :=
  ∀ s', e = .other s' → Undisturbed t w.stores s' w.stage

/-- The steps of the purge, of crashes, and of others. -/
def Step (sortedTables : List Table) (t : ℤ) (w : World) (e : Event) (w' : World) : Prop :=
  w.step sortedTables t e = some w'

end World

/-! ### What a run has done when it is at a stage -/

def Progress (sortedTables : List Table) (t : ℤ) (s : Storage) : Stage → Prop
  | .idle | .shred | .saveShred => True
  | .clickhouse rest => ∀ x, x ∉ rest → s.clickhouse x t = 0
  | .leftovers _ | .clearReferences => ∀ x, s.clickhouse x t = 0
  | .tables rest => (∀ x, s.clickhouse x t = 0) ∧
      (∀ x ∈ tenantTables, ∀ c ∈ selfReferences x, Cleared t s.db x c) ∧
        ∃ before, purgeOrder sortedTables = before ++ rest ∧ ∀ x ∈ before, NoRows t s.db x
  | .members => (∀ x, s.clickhouse x t = 0) ∧ ∀ x ∈ tenantTables, NoRows t s.db x
  | .examine members rest kept => (∀ x, s.clickhouse x t = 0) ∧
      (∀ x ∈ tenantTables, NoRows t s.db x) ∧
        ∀ u ∈ members, u ∉ kept → ∀ q ∈ questions [u], q ∈ rest ∨ q.keeps t s.db = false
  | .tenantRow => (∀ x, s.clickhouse x t = 0) ∧ (∀ x ∈ tenantTables, NoRows t s.db x) ∧
      NoRows t s.db .tenantMemberships
  | .returned => Complete t s
  | .failed => False

structure World.Inv (sortedTables : List Table) (t : ℤ) (w : World) : Prop where
  keyed : schema.Keyed w.stores.db
  progress : Progress sortedTables t w.stores w.stage

section OtherWriters

theorem OtherWriter.noRows (h : OtherWriter t s s') {x : Table} (hx : x ∈ tenantTables)
    (hrows : NoRows t s.db x) : NoRows t s'.db x := by
  intro r hr
  by_contra ht
  rw [Bool.not_eq_false] at ht
  have hnone := hrows r (h.rows x hx r hr ht)
  rw [ht] at hnone
  cases hnone

theorem OtherWriter.noMemberships (h : OtherWriter t s s')
    (hrows : NoRows t s.db .tenantMemberships) : NoRows t s'.db .tenantMemberships := by
  intro r hr
  by_contra ht
  rw [Bool.not_eq_false] at ht
  obtain ⟨r', hr', ht', -⟩ := h.memberships r hr ht
  rw [hrows r' hr'] at ht'
  cases ht'

theorem OtherWriter.clickhouse_eq_zero (h : OtherWriter t s s') {x : ClickHouseTable}
    (hx : s.clickhouse x t = 0) : s'.clickhouse x t = 0 :=
  Nat.le_zero.mp (hx ▸ h.clickhouse x)

/-- Other writers undo nothing. -/
theorem Progress.other {stage : Stage} (h : Progress sortedTables t s stage)
    (hother : OtherWriter t s s') (hundisturbed : Undisturbed t s s' stage) :
    Progress sortedTables t s' stage := by
  cases stage with
  | idle => trivial
  | shred => trivial
  | saveShred => trivial
  | clickhouse rest => exact fun x hx => hother.clickhouse_eq_zero (h x hx)
  | leftovers rest => exact fun x => hother.clickhouse_eq_zero (h x)
  | clearReferences => exact fun x => hother.clickhouse_eq_zero (h x)
  | tables rest =>
    obtain ⟨hch, hcleared, before, horder, hrows⟩ := h
    refine ⟨fun x => hother.clickhouse_eq_zero (hch x), fun x hx c hc r hr ht =>
      hcleared x hx c hc r (hother.rows x hx r hr ht) ht, before, horder, fun x hx => ?_⟩
    have hmem : x ∈ purgeOrder sortedTables := horder ▸ List.mem_append_left rest hx
    exact hother.noRows (by simpa using (List.mem_filter.mp hmem).2) (hrows x hx)
  | members =>
    exact ⟨fun x => hother.clickhouse_eq_zero (h.1 x), fun x hx => hother.noRows hx (h.2 x hx)⟩
  | examine members rest kept =>
    obtain ⟨hch, hrows, hanswers⟩ := h
    refine ⟨fun x => hother.clickhouse_eq_zero (hch x), fun x hx => hother.noRows hx (hrows x hx),
      fun u hu hkept q hq => (hanswers u hu hkept q hq).imp id fun hno => ?_⟩
    by_contra hyes
    rw [hundisturbed u hu q hq (by simpa using hyes)] at hno
    cases hno
  | tenantRow =>
    exact ⟨fun x => hother.clickhouse_eq_zero (h.1 x),
      fun x hx => hother.noRows hx (h.2.1 x hx), hother.noMemberships h.2.2⟩
  | returned =>
    exact ⟨fun x hx => hother.noRows hx (h.rows x hx),
      fun x => hother.clickhouse_eq_zero (h.clickhouse x), hother.noMemberships h.memberships,
      fun r hr hid => h.tenant r (hother.tenant r hr hid) hid⟩
  | failed => exact h

end OtherWriters

/-! ### One step -/

theorem mem_clickhouseTables (x : ClickHouseTable) : x ∈ clickhouseTables := by
  cases x <;> decide

theorem mem_tenantTables_of_mem_purgeOrder {x : Table} (h : x ∈ purgeOrder sortedTables) :
    x ∈ tenantTables := by
  simpa using (List.mem_filter.mp h).2

theorem Sorted.mem_purgeOrder (h : Sorted sortedTables) {x : Table} (hx : x ∈ tenantTables) :
    x ∈ purgeOrder sortedTables :=
  List.mem_filter.mpr ⟨List.mem_reverse.mpr (h.mem x hx), by simpa using hx⟩

/-- What refers to a table of the order stands before it. -/
theorem Sorted.children_first (h : Sorted sortedTables) {before rest : List Table} {x : Table}
    (horder : purgeOrder sortedTables = before ++ x :: rest) {k : ForeignKey Table Column}
    (hk : k ∈ schema.foreignKeys) (hparent : k.parent = x) (hchild : k.child ≠ x) :
    k.child ∈ before := by
  have hx : x ∈ tenantTables :=
    mem_tenantTables_of_mem_purgeOrder (horder ▸ List.mem_append_right before List.mem_cons_self)
  have hmem : k.child ∈ before ++ x :: rest := by
    rw [← horder]
    exact h.mem_purgeOrder (foreignKey_of_tenantTable k hk (hparent ▸ hx)).1
  have hpairs : (purgeOrder sortedTables).Pairwise fun x y =>
      ∀ k ∈ schema.foreignKeys, ¬(k.child = y ∧ k.parent = x) :=
    (List.pairwise_reverse.mpr h.parents_first).filter _
  rw [horder, List.pairwise_append] at hpairs
  rcases List.mem_append.mp hmem with hbefore | hafter
  · exact hbefore
  · rcases List.mem_cons.mp hafter with heq | hrest
    · exact absurd heq hchild
    · exact absurd ⟨rfl, hparent⟩ ((List.pairwise_cons.mp hpairs.2.1).1 k.child hrest k hk)

namespace World

variable {e : Event}

/-- What one step keeps, and leaves to others. -/
structure Sound (sortedTables : List Table) (t : ℤ) (w w' : World) : Prop where
  inv : w'.Inv sortedTables t
  framed : Framed t w.stores w'.stores

/-- A step that writes nothing. -/
theorem Sound.of_stage {stage : Stage} (h : w.Inv sortedTables t)
    (hstage : Progress sortedTables t w.stores stage) :
    Sound sortedTables t w { w with stage := stage } :=
  ⟨⟨h.keyed, hstage⟩, .refl t w.stores⟩

/-- A transaction. -/
theorem Sound.commit {db' : Db} {stage : Stage} (hkeyed : schema.Keyed db')
    (hkeeps : KeepsOthers t w.stores.db db')
    (hstage : Progress sortedTables t { w.stores with db := db' } stage) :
    Sound sortedTables t w (w.commit (some db') stage) :=
  ⟨⟨hkeyed, hstage⟩, .of_db hkeeps⟩

theorem Sound.start (h : w.Inv sortedTables t) (now : ℚ) : Sound sortedTables t w (w.start t now) := by
  unfold World.start
  split
  · exact ⟨h, .refl t w.stores⟩
  · split_ifs
    · exact .of_stage h fun x hx => absurd (mem_clickhouseTables x) hx
    · exact .of_stage h trivial

theorem Sound.purgeClickhouse (h : w.Inv sortedTables t) {x : ClickHouseTable}
    {rest : List ClickHouseTable} (hstage : w.stage = .clickhouse (x :: rest)) (left : ℕ) :
    Sound sortedTables t w (w.purgeClickhouse t x rest left) := by
  have hdone : ∀ y, y ∉ x :: rest → w.stores.clickhouse y t = 0 := by
    simpa only [hstage, Progress] using h.progress
  unfold World.purgeClickhouse
  split
  · next hzero =>
    refine .of_stage h fun y hy => ?_
    by_cases hyx : y = x
    · rwa [hyx]
    · exact hdone y (by simp [hyx, hy])
  · refine ⟨⟨h.keyed, ?_⟩, (Confined.refl t _).keepsOthers, fun y u hu => ?_,
      fun _ rows hrows => ⟨rows, hrows, fun _ _ => rfl⟩⟩
    · dsimp only
      split_ifs with hleft
      · intro y hy
        by_cases hyx : y = x
        · simp [hyx, hleft]
        · simpa [Function.update_of_ne hyx] using hdone y (by simp [hyx, hy])
      · trivial
    · by_cases hyx : y = x
      · simp [hyx, Function.update_of_ne hu]
      · simp [Function.update_of_ne hyx]

theorem Sound.purgeLeftover (h : w.Inv sortedTables t) {x : ClickHouseTable}
    {rest : List ClickHouseTable} (hstage : w.stage = .leftovers (x :: rest)) (readable : Bool)
    (left : ℕ) : Sound sortedTables t w (w.purgeLeftover t x rest readable left) := by
  have hdone : ∀ y, w.stores.clickhouse y t = 0 := by
    simpa only [hstage, Progress] using h.progress
  unfold World.purgeLeftover
  split
  · next rows hrows =>
    split_ifs
    · refine ⟨⟨h.keyed, hdone⟩, (Confined.refl t _).keepsOthers, fun _ _ _ => rfl,
        fun y rows' hrows' => ?_⟩
      by_cases hyx : y = x
      · subst hyx
        obtain rfl : rows = rows' := Option.some.inj (hrows.symm.trans hrows')
        exact ⟨_, Function.update_self .., fun u hu => Function.update_of_ne hu _ _⟩
      · exact ⟨rows', (Function.update_of_ne hyx _ _).trans hrows', fun _ _ => rfl⟩
    · exact .of_stage h hdone
  · exact .of_stage h hdone

/-- What a statement that deletes rows of the tenant from the next table leads to. -/
theorem Sound.deleteRows (hsorted : Sorted sortedTables) (h : w.Inv sortedTables t) {x : Table}
    {rest rest' : List Table} (hstage : w.stage = .tables (x :: rest))
    {p : Record Column Value → Bool}
    (hp : ∀ r ∈ w.stores.db x, p r = true → ofTenant t r = true)
    (hrest : rest' = x :: rest ∨
      (rest' = rest ∧ ∀ r ∈ w.stores.db x, ofTenant t r = true → p r = true)) :
    Sound sortedTables t w (w.commit (schema.delete w.stores.db x p) (.tables rest')) := by
  have hprogress := h.progress
  simp only [hstage, Progress] at hprogress
  obtain ⟨hch, hcleared, before, horder, hrows⟩ := hprogress
  have hx : x ∈ tenantTables :=
    mem_tenantTables_of_mem_purgeOrder (horder ▸ List.mem_append_right before List.mem_cons_self)
  have hdelete := delete_rows hx (hcleared x hx)
    (fun k hk hparent hchild => hrows k.child (hsorted.children_first horder hk hparent hchild)) hp
  -- The rows that are left were there.
  have hsub : ∀ y, ∀ r ∈ Function.update w.stores.db x
      ((w.stores.db x).filter fun r => !p r) y, r ∈ w.stores.db y := by
    intro y r hr
    by_cases hyx : y = x
    · subst hyx
      rw [Function.update_self] at hr
      exact List.mem_of_mem_filter hr
    · rwa [Function.update_of_ne hyx] at hr
  rw [hdelete]
  refine .commit (h.keyed.delete hdelete) (confined_filter hx hp).keepsOthers
    ⟨hch, fun y hy c hc r hr ht => hcleared y hy c hc r (hsub y r hr) ht, ?_⟩
  rcases hrest with rfl | ⟨rfl, hall⟩
  · exact ⟨before, horder, fun y hy r hr => hrows y hy r (hsub y r hr)⟩
  · refine ⟨before ++ [x], by simpa using horder, fun y hy r hr => ?_⟩
    rcases List.mem_append.mp hy with hy | hy
    · exact hrows y hy r (hsub y r hr)
    · obtain rfl : y = x := by simpa using hy
      change r ∈ Function.update w.stores.db y _ y at hr
      rw [Function.update_self] at hr
      obtain ⟨hmem, hkept⟩ := List.mem_filter.mp hr
      by_contra ht
      simp [hall r hmem (by simpa using ht)] at hkept

theorem Sound.deleteBatch (hsorted : Sorted sortedTables) (h : w.Inv sortedTables t) {x : Table}
    {rest : List Table} (hstage : w.stage = .tables (x :: rest)) {ids : List Value}
    (hbatch : w.deleteBatch t x rest ids = some w') : Sound sortedTables t w w' := by
  unfold World.deleteBatch at hbatch
  split_ifs at hbatch with hkey hids
  · obtain rfl := Option.some.inj hbatch
    refine .deleteRows hsorted h hstage (fun r hr => hids.ofTenant h.keyed hkey hr) ?_
    split_ifs with hcount
    · exact Or.inr ⟨rfl, fun r hr ht => hids.valueIn_of_lt h.keyed hkey hcount hr ht⟩
    · exact Or.inl rfl
  · obtain rfl := Option.some.inj hbatch
    exact .deleteRows hsorted h hstage (fun _ _ ht => ht) (Or.inr ⟨rfl, fun _ _ ht => ht⟩)

theorem mem_questions {members : List Value} {q : Question} :
    q ∈ questions members ↔ ∃ u ∈ members, q ∈ questions [u] := by
  simp [questions]

theorem about_of_mem_questions {u : Value} {q : Question} (h : q ∈ questions [u]) :
    q.about = u := by
  simp only [questions, List.flatMap_cons, List.flatMap_nil, List.append_nil, List.mem_cons,
    List.not_mem_nil, or_false] at h
  rcases h with rfl | rfl | rfl <;> rfl

/-- After an answer, a question about a user whom nothing has kept is still to be asked, or has not
kept the user. -/
theorem mem_or_keeps_of_answer {u : Value} {q q' : Question} {rest : List Question}
    {kept : List Value} {db : Db}
    (h : u ∉ kept → ∀ q' ∈ questions [u], q' ∈ q :: rest ∨ q'.keeps t db = false)
    (hkept : u ∉ if q.keeps t db then q.about :: kept else kept) (hq' : q' ∈ questions [u]) :
    q' ∈ rest ∨ q'.keeps t db = false := by
  split_ifs at hkept with hkeeps
  · obtain ⟨hne, hkept⟩ := not_or.mp (List.mem_cons.not.mp hkept)
    rcases h hkept q' hq' with hrest | hno
    · rcases List.mem_cons.mp hrest with rfl | hrest
      · exact absurd (about_of_mem_questions hq').symm hne
      · exact Or.inl hrest
    · exact Or.inr hno
  · rcases h hkept q' hq' with hrest | hno
    · rcases List.mem_cons.mp hrest with rfl | hrest
      · exact Or.inr (by simpa using hkeeps)
      · exact Or.inl hrest
    · exact Or.inr hno

/-- **One step** of the purge, or a crash, keeps the invariant, and deletes nothing of others. -/
theorem Sound.of_step (hsorted : Sorted sortedTables) (h : w.Inv sortedTables t) {e : Event}
    (hother : ∀ s', e ≠ .other s') (hstep : w.step sortedTables t e = some w') :
    Sound sortedTables t w w' := by
  have hprogress := h.progress
  cases e with
  | start now =>
    simp only [step, Option.ite_none_right_eq_some, Option.some.injEq] at hstep
    exact hstep.2 ▸ .start h now
  | shred now legacy keyId =>
    simp only [step, Option.ite_none_right_eq_some, Option.some.injEq] at hstep
    obtain ⟨⟨-, hnew⟩, rfl⟩ := hstep
    exact .commit (keyed_destroyTenantKey h.keyed now legacy hnew)
      (confined_destroyTenantKey now legacy keyId).keepsOthers trivial
  | saveShred =>
    simp only [step, Option.ite_none_right_eq_some, Option.some.injEq] at hstep
    obtain ⟨-, rfl⟩ := hstep
    exact .commit (keyed_saveShred h.keyed) confined_saveShred.keepsOthers
      fun x hx => absurd (mem_clickhouseTables x) hx
  | clickhouse left =>
    simp only [step] at hstep
    split at hstep
    · next x rest hstage =>
      obtain rfl := Option.some.inj hstep
      exact .purgeClickhouse h hstage left
    · cases hstep
  | leftover readable left =>
    simp only [step] at hstep
    split at hstep
    · next x rest hstage =>
      obtain rfl := Option.some.inj hstep
      exact .purgeLeftover h hstage readable left
    · cases hstep
  | clearReferences =>
    simp only [step, Option.ite_none_right_eq_some, Option.some.injEq] at hstep
    obtain ⟨hstage, rfl⟩ := hstep
    simp only [hstage, Progress] at hprogress
    exact .commit (keyed_clearReferences sortedTables h.keyed)
      (confined_clearReferences sortedTables).keepsOthers
      ⟨hprogress, fun x hx c hc => cleared_clearReferences sortedTables (hsorted.mem_purgeOrder hx) hc,
        [], rfl, fun x hx => absurd hx List.not_mem_nil⟩
  | batch ids =>
    simp only [step] at hstep
    split at hstep
    · next x rest hstage => exact .deleteBatch hsorted h hstage hstep
    · cases hstep
  | members =>
    simp only [step, Option.ite_none_right_eq_some, Option.some.injEq] at hstep
    obtain ⟨hstage, rfl⟩ := hstep
    simp only [hstage, Progress] at hprogress
    exact .of_stage h ⟨hprogress.1, hprogress.2, fun u hu _ q hq =>
      Or.inl (mem_questions.mpr ⟨u, hu, hq⟩)⟩
  | examine =>
    simp only [step] at hstep
    split at hstep
    · next members q rest kept hstage =>
      obtain rfl := Option.some.inj hstep
      simp only [hstage, Progress] at hprogress
      obtain ⟨hch, hrows, hanswers⟩ := hprogress
      exact .of_stage h ⟨hch, hrows, fun u hu hkept q' hq' =>
        mem_or_keeps_of_answer (hanswers u hu) hkept hq'⟩
    · cases hstep
  | identities =>
    simp only [step] at hstep
    split at hstep
    · next members kept hstage =>
      obtain rfl := Option.some.inj hstep
      simp only [hstage, Progress] at hprogress
      obtain ⟨hch, hrows, hanswers⟩ := hprogress
      have horphans : ∀ u ∈ members.filter (· ∉ kept), ∀ q ∈ questions [u],
          q.keeps t w.stores.db = false := by
        intro u hu q hq
        obtain ⟨hmem, hkept⟩ := List.mem_filter.mp hu
        exact (hanswers u hmem (by simpa using hkept) q hq).resolve_left List.not_mem_nil
      obtain ⟨db', hrun, hkeyed, hkeeps, hnone, hmemberships⟩ :=
        exists_purgeIdentities h.keyed horphans
      rw [hrun]
      exact .commit hkeyed hkeeps ⟨hch, fun x hx => hnone x hx (hrows x hx), hmemberships⟩
    · cases hstep
  | tenantRow auditId =>
    simp only [step, Option.ite_none_right_eq_some, Option.some.injEq] at hstep
    obtain ⟨⟨hstage, hnew⟩, rfl⟩ := hstep
    simp only [hstage, Progress] at hprogress
    obtain ⟨hch, hrows, hmemberships⟩ := hprogress
    obtain ⟨db', hrun, hkeyed, hkeeps, hrows', hmemberships', htenant⟩ :=
      exists_purgeTenantRow h.keyed hrows hmemberships hnew
    rw [hrun]
    exact .commit hkeyed hkeeps ⟨hrows', hch, hmemberships', htenant⟩
  | done =>
    simp only [step] at hstep
    split at hstep
    · next hstage =>
      obtain rfl := Option.some.inj hstep
      simp only [hstage, Progress] at hprogress
      exact .of_stage h fun x => hprogress x List.not_mem_nil
    · next hstage =>
      obtain rfl := Option.some.inj hstep
      simp only [hstage, Progress] at hprogress
      exact .of_stage h hprogress
    · next hstage =>
      obtain rfl := Option.some.inj hstep
      simp only [hstage, Progress] at hprogress
      obtain ⟨hch, -, before, horder, hrows⟩ := hprogress
      refine .of_stage h ⟨hch, fun x hx => hrows x ?_⟩
      have hmem := hsorted.mem_purgeOrder hx
      rwa [horder, List.append_nil] at hmem
    · cases hstep
  | crash =>
    obtain rfl := Option.some.inj hstep
    exact .of_stage h trivial
  | other s' => exact absurd rfl (hother s')

/-- One step of anybody keeps the invariant. -/
theorem Inv.step (hsorted : Sorted sortedTables) (h : w.Inv sortedTables t) {e : Event}
    (he : w.NoOtherWriter t e ∧ w.MembersUndisturbed t e)
    (hstep : w.step sortedTables t e = some w') : w'.Inv sortedTables t := by
  by_cases hother : ∃ s', e = .other s'
  · obtain ⟨s', rfl⟩ := hother
    obtain rfl := Option.some.inj hstep
    have hwriter := he.1 s' rfl
    exact ⟨hwriter.keyed, h.progress.other hwriter (he.2 s' rfl)⟩
  · exact (Sound.of_step hsorted h (fun s' heq => hother ⟨s', heq⟩) hstep).inv

/-- **The purge.** In every run of it, with crashes and with other writers, no foreign key refuses a
statement; when a run of it has returned, nothing of the tenant is left; and no step of it deletes
anything of another tenant but the preferences of the users it deletes. -/
theorem purged (hsorted : Sorted sortedTables) (hkeyed : schema.Keyed w.stores.db)
    (hidle : w.stage = .idle) {l : List Event}
    (h : Run (Guarded (fun w e => w.NoOtherWriter t e ∧ w.MembersUndisturbed t e)
      (Step sortedTables t)) w l w') :
    w'.stage ≠ .failed ∧ (w'.stage = .returned → Complete t w'.stores) ∧
      ∀ e w'', (∀ s', e ≠ .other s') → w'.Step sortedTables t e w'' →
        Framed t w'.stores w''.stores := by
  have hstart : w.Inv sortedTables t := ⟨hkeyed, by rw [hidle]; trivial⟩
  have hinv : w'.Inv sortedTables t :=
    h.invariant (fun _ _ _ hw hstep => hw.step hsorted hstep.1 hstep.2) hstart
  refine ⟨fun hfailed => ?_, fun hreturned => ?_, fun e w'' hother hstep =>
    (Sound.of_step hsorted hinv hother hstep).framed⟩
  · have hprogress := hinv.progress
    rwa [hfailed] at hprogress
  · have hprogress := hinv.progress
    rwa [hreturned] at hprogress

/-! ### A tenant of one user -/

/-- The tables of a tenant that refer to others of them. -/
def sampleReferring : List Table :=
  [.agentInstallTokens, .agents, .backupHistory, .incidentEvents, .precursorPatterns,
    .subnetScanSchedules, .integrationConfigs, .pingHosts, .subnetScanLogs, .discoveredPorts,
    .snmpHostConfigs, .snmpResults]

/-- The tables, those first that others refer to. -/
def sampleOrder : List Table :=
  [.users, .tenants, .providerMemberships, .sessions, .tenantMemberships] ++
    tenantTables.filter (· ∉ sampleReferring) ++ sampleReferring

theorem sorted_sampleOrder : Sorted sampleOrder := by
  have hkeys : ∀ k ∈ schema.foreignKeys, ¬[k.child, k.parent].Sublist sampleOrder := by
    decide +kernel
  refine ⟨by decide +kernel, List.pairwise_iff_forall_sublist.mpr fun hsub k hk => ?_⟩
  rintro ⟨rfl, rfl⟩
  exact hkeys k hk hsub

/-- Tenant 2 is due. Its user 7 has preferences in tenant 3, of which he was a member. -/
def sample : World where
  stores.db := fun
    | .tenants =>
        [row [(.id, .int 2), (.status, .text "deleting"), (.deleteAfter, .time 0)],
          row [(.id, .int 3), (.status, .text "active")]]
    | .users => [row [(.id, .int 7), (.isOperator, .bool false)]]
    | .tenantMemberships => [row [(.userId, .int 7), (.tenantId, .int 2)]]
    | .sessions =>
        [row [(.token, .text "token"), (.userId, .int 7), (.activeTenantId, .int 2)]]
    | .userPreferences => [row [(.userId, .int 7), (.tenantId, .int 3)]]
    | .tenantKeys => [row [(.tenantId, .int 2), (.keyId, .text "key")]]
    | .pingHosts =>
        [row [(.id, .int 10), (.tenantId, .int 2)],
          row [(.id, .int 11), (.tenantId, .int 2), (.parentId, .int 10)],
          row [(.id, .int 12), (.tenantId, .int 3)]]
    | _ => []
  stores.clickhouse x u := if x = .pingChecks ∧ u = 2 then 4 else 0
  stores.leftovers _ := none
  stage := .idle

/-- A run that crashes after the keys are destroyed, and the next until it has asked about the
member. -/
def sampleEvents : List Event :=
  [.start 1, .shred 1 true "other key", .crash, .start 2, .shred 2 true "other key", .saveShred,
      .clickhouse 0, .clickhouse 0, .clickhouse 0, .clickhouse 0, .done,
      .leftover true 0, .leftover true 0, .leftover true 0, .leftover true 0, .done,
      .clearReferences] ++
    (purgeOrder sampleOrder).map
      (fun x => .batch (if x = .pingHosts then [.int 10, .int 11] else [])) ++
    [.done, .members, .examine, .examine, .examine]

/-- Somebody makes user 7 a member of tenant 3. -/
def joined (s : Storage) : Storage where
  db := s.db.insert .tenantMemberships (row [(.userId, .int 7), (.tenantId, .int 3)])
  clickhouse := s.clickhouse
  leftovers := s.leftovers

theorem joined_of_ne {x : Table} (hx : x ≠ .tenantMemberships) : (joined s).db x = s.db x :=
  Database.insert_of_ne _ hx

theorem joined_tenantMemberships : (joined s).db .tenantMemberships =
    row [(.userId, .int 7), (.tenantId, .int 3)] :: s.db .tenantMemberships := rfl

theorem exists_sampleRun :
    ∃ w w₁ w₂ w₃ : World, sampleEvents.foldlM (step sampleOrder 2) sample = some w ∧
      w.step sampleOrder 2 .identities = some w₁ ∧
      w₁.step sampleOrder 2 (.tenantRow 100) = some w₂ ∧
      (w₂.stage = .returned ∧ (w₂.stores.db .userPreferences).isEmpty = true) ∧
      (w.stores.db .tenantMemberships).all (fun r => r .tenantId = some (.int 2)) = true ∧
      (w.stores.db .users).any (fun u => u .id = some (.int 7)) = true ∧
      ({ w with stores := joined w.stores } : World).step sampleOrder 2 .identities = some w₃ ∧
      (w₃.stores.db .users).isEmpty = true := by
  have hrun : (sampleEvents.foldlM (step sampleOrder 2) sample).any (fun w =>
      ((w.step sampleOrder 2 .identities).any fun w₁ =>
        (w₁.step sampleOrder 2 (.tenantRow 100)).any fun w₂ =>
          w₂.stage = .returned && (w₂.stores.db .userPreferences).isEmpty) &&
        (w.stores.db .tenantMemberships).all (fun r => r .tenantId = some (.int 2)) &&
        (w.stores.db .users).any (fun u => u .id = some (.int 7)) &&
        (({ w with stores := joined w.stores } : World).step sampleOrder 2 .identities).any
          fun w₃ => (w₃.stores.db .users).isEmpty) = true := by
    decide +kernel
  obtain ⟨w, hw, hchecks⟩ := (Option.any_eq_true _ _).mp hrun
  simp only [Bool.and_eq_true, Option.any_eq_true, decide_eq_true_eq] at hchecks
  obtain ⟨⟨⟨⟨w₁, h₁, w₂, h₂, hend⟩, hmemberships⟩, husers⟩, w₃, h₃, hgone⟩ := hchecks
  exact ⟨w, w₁, w₂, w₃, hw, h₁, h₂, hend, hmemberships, husers, h₃, hgone⟩

theorem not_other_of_mem_sampleEvents : ∀ e ∈ sampleEvents, ∀ s, e ≠ .other s := by
  intro e he s hother
  subst hother
  simp [sampleEvents] at he

theorem keyed_sample : schema.Keyed sample.stores.db := by
  constructor
  · intro x
    cases x <;> decide
  · intro x
    cases x <;> decide

theorem otherWriter_joined (hkeyed : schema.Keyed s.db)
    (hmemberships : (s.db .tenantMemberships).all (fun r => r .tenantId = some (.int 2)) = true) :
    OtherWriter 2 s (joined s) := by
  have hnew : ofTenant 2 (row [(.userId, .int 7), (.tenantId, .int 3)]) = false := by decide
  refine ⟨hkeyed.insert (fun r hr heq => ?_) fun c hc => ?_, fun x hx r hr _ => ?_,
    fun r hr ht => ?_, fun r hr _ => ?_, fun _ => le_rfl⟩
  · have htenant : r .tenantId = some (.int 3) := congrArg (fun l => l.getD 1 none) heq
    have hold := List.all_eq_true.mp hmemberships r hr
    simp [htenant] at hold
  · obtain rfl | rfl : c = .userId ∨ c = .tenantId := by simpa [schema, primaryKey] using hc
    · decide
    · decide
  · rwa [← joined_of_ne (by rintro rfl; exact absurd hx (by decide))]
  · rw [joined_tenantMemberships] at hr
    rcases List.mem_cons.mp hr with rfl | hr
    · rw [hnew] at ht
      cases ht
    · exact ⟨r, hr, ht, rfl⟩
  · rwa [← joined_of_ne (by decide)]

/-- A purge without any other writer deletes the preferences that its user has in another tenant. If
he becomes a member of another tenant when it has asked about him, it deletes him all the same. -/
theorem rows_of_others_deleted :
    (∃ l w, Run (Guarded (NoOtherWriter 2) (Step sampleOrder 2)) sample l w ∧
      (∀ e ∈ l, ∀ s, e ≠ .other s) ∧ w.stage = .returned ∧
      ∃ r ∈ sample.stores.db .userPreferences, ofTenant 3 r = true ∧
        r ∉ w.stores.db .userPreferences) ∧
    ∃ l w w', Run (Guarded (NoOtherWriter 2) (Step sampleOrder 2)) sample l w ∧
      w.Step sampleOrder 2 .identities w' ∧
      ∃ u ∈ w.stores.db .users, u ∉ w'.stores.db .users ∧
        ∃ r ∈ w.stores.db .tenantMemberships, ofTenant 3 r = true ∧ r .userId = u .id := by
  obtain ⟨w, w₁, w₂, w₃, hw, h₁, h₂, ⟨hreturned, hpref⟩, hmemberships, husers, h₃, hgone⟩ :=
    exists_sampleRun
  have hrun : Run (Step sampleOrder 2) sample sampleEvents w := Run.of_foldlM hw
  constructor
  · have hother : ∀ e ∈ sampleEvents ++ [.identities, .tenantRow 100], ∀ s, e ≠ .other s := by
      intro e he
      rcases List.mem_append.mp he with he | he
      · exact not_other_of_mem_sampleEvents e he
      · intro s hother
        simp [hother] at he
    refine ⟨_, w₂, (hrun.append (.cons h₁ (.single h₂))).guarded_of_forall fun e he w s hs =>
      absurd hs (hother e he s), hother, hreturned,
      row [(.userId, .int 7), (.tenantId, .int 3)], List.mem_singleton_self _, by decide, ?_⟩
    rw [List.isEmpty_iff.mp hpref]
    exact List.not_mem_nil
  · have hkeyed : schema.Keyed w.stores.db := by
      have hinv : w.Inv sampleOrder 2 := by
        refine hrun.invariant_of_forall (I := fun w => w.Inv sampleOrder 2)
          (P := fun e => ∀ s, e ≠ .other s) (fun _ _ _ he hw hstep => ?_)
          not_other_of_mem_sampleEvents ⟨keyed_sample, trivial⟩
        exact (Sound.of_step sorted_sampleOrder hw he hstep).inv
      exact hinv.keyed
    obtain ⟨u, hu, hid⟩ := List.any_eq_true.mp husers
    have hjoin : Guarded (NoOtherWriter 2) (Step sampleOrder 2) w (.other (joined w.stores))
        { w with stores := joined w.stores } := by
      refine ⟨fun s hs => ?_, rfl⟩
      obtain rfl := Event.other.inj hs
      exact otherWriter_joined hkeyed hmemberships
    refine ⟨sampleEvents ++ [.other (joined w.stores)], { w with stores := joined w.stores }, w₃,
      (hrun.guarded_of_forall fun e he w s hs =>
        absurd hs (not_other_of_mem_sampleEvents e he s)).append (.single hjoin), h₃,
      u, ?_, ?_, row [(.userId, .int 7), (.tenantId, .int 3)], ?_, by decide, ?_⟩
    · change u ∈ (joined w.stores).db .users
      rwa [joined_of_ne (by decide)]
    · rw [List.isEmpty_iff.mp hgone]
      exact List.not_mem_nil
    · change _ ∈ (joined w.stores).db .tenantMemberships
      rw [joined_tenantMemberships]
      exact List.mem_cons_self
    · rw [of_decide_eq_true hid]
      rfl

theorem purged_sample :
    ∃ l w, Run (Guarded (fun w e => w.NoOtherWriter 2 e ∧ w.MembersUndisturbed 2 e)
        (Step sampleOrder 2)) sample l w ∧ w.stage = .returned ∧
      (w.stage ≠ .failed ∧ (w.stage = .returned → Complete 2 w.stores) ∧
        ∀ e w', (∀ s, e ≠ .other s) → w.Step sampleOrder 2 e w' → Framed 2 w.stores w'.stores) := by
  obtain ⟨w, w₁, w₂, -, hw, h₁, h₂, hend, -⟩ := exists_sampleRun
  have hrun : Run (Guarded (fun w e => w.NoOtherWriter 2 e ∧ w.MembersUndisturbed 2 e)
      (Step sampleOrder 2)) sample (sampleEvents ++ [.identities, .tenantRow 100]) w₂ := by
    refine ((Run.of_foldlM hw).append (.cons h₁ (.single h₂))).guarded_of_forall fun e he w => ?_
    have hother : ∀ s, e ≠ .other s := by
      rcases List.mem_append.mp he with he | he
      · exact not_other_of_mem_sampleEvents e he
      · intro s hother
        simp [hother] at he
    exact ⟨fun s hs => absurd hs (hother s), fun s hs => absurd hs (hother s)⟩
  exact ⟨_, w₂, hrun, hend.1, purged sorted_sampleOrder keyed_sample rfl hrun⟩

end World

end Nodeglow.Tenancy.Purge
