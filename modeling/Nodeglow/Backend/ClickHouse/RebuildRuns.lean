import Nodeglow.Backend.ClickHouse.TableRebuild

/-!
# Runs of a rebuild

A count tells how many rows there are and not which. A full copy that stops leaves some rows of the
partition, also of blocks after the recorded one; if they are as many as recorded, the next run
appends to them (`Rebuild.append_to_other_rows`). An abandoned insert may add rows to them, also
between the drop of the partition and its own end. And while the parts of the source are counted by
their names, those merged since the names were listed do not count. Where none of these hides a
difference (`Rebuild.Careful`), the copy of a partition that is in sync, or that is appended to,
holds exactly the rows of the recorded blocks (`Rebuild.exact_of_plan`), and so does the whole work
table when the tables are exchanged.

The invariant is that the counts of a partition tell the truth whenever they agree: if the copy has
as many rows as recorded, and the recorded blocks of the source as well, then the copy holds these
rows. Inserts and merges leave it, since they leave the rows of the recorded blocks.

## Main results

* `Rebuild.exact_of_planned` — the plan is right where the counts tell the truth.
* `Rebuild.Inv.environment`, `Rebuild.Inv.step`, `Rebuild.exact_of_plan` — the source, one event,
  and whole runs.

Source: `backend/services/clickhouse_rebuild.py`, lines 328–411, 541–582 and 657–706.
-/

namespace Nodeglow.ClickHouse

open MergeTree

variable {ρ : Type}

/-! ### The invariant -/

namespace Rebuild

/-- Listed parts hold the rows of the blocks that had been inserted. -/
structure ListedParts (nextBlock : ℤ) (progress : PartitionId → Option Progress)
    (source listing : PartitionId → List (DataPart ρ)) (bound : ℤ) : Prop where
  nonneg : 0 ≤ bound
  le : bound ≤ nextBlock
  recorded : ∀ p prog, progress p = some prog → prog.maxBlock < bound
  parts : ∀ p, ∀ q ∈ listing p, q.maxBlock < bound
  rows : ∀ p b, b < bound → rowsUpTo (listing p) b = rowsUpTo (source p) b

abbrev Listed (w : Rebuild ρ) (listing : PartitionId → List (DataPart ρ)) (bound : ℤ) : Prop :=
  ListedParts w.nextBlock w.progress w.source listing bound

/-- A count tells what the listing told. -/
def Counted (w : Rebuild ρ) (pass : Pass ρ) (p : PartitionId) (srcOld : Option ℕ) : Prop :=
  ∀ prog, w.progress p = some prog → srcOld.getD 0 = prog.rows →
    (allRows (oldParts (pass.listing p) prog.maxBlock)).card = prog.rows

/-- A check has found all partitions exact that it has visited. -/
def Checked (w : Rebuild ρ) (pass : Pass ρ) (todo : List PartitionId) : Prop :=
  pass.check = true → ∀ p, p ∉ todo → w.Exact p

/-- A pass has listed parts of the partitions that it visits. -/
def Pass.Nonempty (pass : Pass ρ) (todo : List PartitionId) : Prop :=
  ∀ p ∈ todo, pass.listing p ≠ []

/-- What a copy begins with. Where an abandoned insert has not written to the partition, a copy that
appends begins with the recorded rows. -/
def CopyInv (w : Rebuild ρ) (p : PartitionId) (names : List PartName) (maxBlock : ℤ) :
    Action → Prop
  | .full => ∀ x ∈ names, x.maxBlock ≤ maxBlock
  | .append => (∃ prog, w.progress p = some prog ∧ prog.rows ≤ (w.work p).card ∧
        ((w.work p).card = prog.rows → w.Exact p)) ∧
      w.recorded p ≤ maxBlock ∧ ∀ x ∈ names, w.recorded p < x.minBlock ∧ x.maxBlock ≤ maxBlock
  | .inSync => False

def PhaseInv (w : Rebuild ρ) : RebuildPhase ρ → Prop
  | .idle => True
  | .visiting pass => ∃ bound, w.Listed pass.listing bound ∧ w.Checked pass pass.todo ∧
      Pass.Nonempty pass pass.todo
  | .counted pass p srcOld => ∃ bound, w.Listed pass.listing bound ∧
      w.Checked pass (p :: pass.todo) ∧ Pass.Nonempty pass (p :: pass.todo) ∧
        w.Counted pass p srcOld
  | .full pass _ | .gone pass _ => pass.check = false ∧ ∃ bound, w.Listed pass.listing bound ∧
      Pass.Nonempty pass pass.todo
  | .copying action pass p names maxBlock => pass.check = false ∧
      ∃ bound, w.Listed pass.listing bound ∧ Pass.Nonempty pass pass.todo ∧ maxBlock < bound ∧
        w.CopyInv p names maxBlock action
  | .killed action pass p names maxBlock => w.abandoned p = 0 ∧ pass.check = false ∧
      ∃ bound, w.Listed pass.listing bound ∧ Pass.Nonempty pass pass.todo ∧ maxBlock < bound ∧
        w.CopyInv p names maxBlock action
  | .written _ pass p maxBlock => w.abandoned p = 0 ∧ pass.check = false ∧
      ∃ bound, w.Listed pass.listing bound ∧ Pass.Nonempty pass pass.todo ∧ maxBlock < bound ∧
        w.Matches p maxBlock (w.work p)
  | .ready => ∀ p, w.Exact p

structure Inv (w : Rebuild ρ) : Prop where
  nonneg : 0 ≤ w.nextBlock
  parts : ∀ p, ∀ q ∈ w.source p, 0 ≤ q.minBlock ∧ q.maxBlock < w.nextBlock
  recorded : ∀ p prog, w.progress p = some prog → prog.maxBlock < w.nextBlock
  ids : ∀ p, p ∉ w.ids → w.source p = [] ∧ w.work p = 0 ∧ w.abandoned p = 0
  tells : ∀ p, ¬ w.phase.Rewrites p → w.Tells p (w.work p)
  phase : w.PhaseInv w.phase
  exchanged : w.exchanged = true → w.phase = .idle ∧ ∀ p, w.Exact p

section Steps

variable {w w' : Rebuild ρ} {p : PartitionId} {pass : Pass ρ} {phase : RebuildPhase ρ}
  {rows : Multiset ρ} {names : List PartName} {maxBlock : ℤ}

theorem inv_init : (init : Rebuild ρ).Inv where
  nonneg := zero_le_one
  parts _ _ hq := nomatch hq
  recorded _ _ hp := nomatch hp
  ids _ _ := ⟨rfl, rfl, rfl⟩
  tells _ _ _ hp := nomatch hp
  phase := trivial
  exchanged h := nomatch h

theorem recorded_eq {prog : Progress} (h : w.progress p = some prog) :
    w.recorded p = prog.maxBlock := by
  rw [recorded, h]
  rfl

/-- Every recorded block has been inserted. -/
theorem Inv.recorded_lt (h : w.Inv) (p : PartitionId) : w.recorded p < w.nextBlock := by
  cases hprog : w.progress p with
  | none =>
    rw [Rebuild.recorded, hprog]
    exact lt_of_lt_of_le (by decide) h.nonneg
  | some prog =>
    rw [recorded_eq hprog]
    exact h.recorded p prog hprog

/-- **The plan tells the truth**: a partition that is in sync, or is appended to, is exact. -/
theorem exact_of_planned {srcOld : Option ℕ} {bound : ℤ} (hlisted : w.Listed pass.listing bound)
    (hparts : pass.listing p ≠ []) (hcounted : w.Counted pass p srcOld)
    (htells : w.Tells p (w.work p)) (hplan : w.planned pass p srcOld ≠ .full) :
    w.Exact p ∧ ∃ prog, w.progress p = some prog ∧ (w.work p).card = prog.rows := by
  obtain ⟨prog, hprog, hblock, hsplit, hdst, hsrc⟩ := of_plan_ne_full hparts hplan
  have hcard : (w.work p).card = prog.rows := hdst _ (by rw [hprog]; rfl)
  have hold : (rowsUpTo (w.source p) prog.maxBlock).card = prog.rows := by
    rw [← hlisted.rows p _ (hlisted.recorded p prog hprog), rowsUpTo_eq_allRows_filter hsplit]
    exact hcounted prog hprog hsrc
  refine ⟨?_, prog, hprog, hcard⟩
  rw [Exact, recorded_eq hprog]
  exact htells prog hprog hblock hcard hold

/-- Rows beside those of the recorded blocks show in the count. -/
theorem tells_add {prog : Progress} (hprog : w.progress p = some prog)
    (hle : prog.rows ≤ (w.work p).card) (hexact : (w.work p).card = prog.rows → w.Exact p)
    (rows : Multiset ρ) : w.Tells p (w.work p + rows) := by
  intro prog' hprog' _ hcard _
  obtain rfl := Option.some.inj (hprog.symm.trans hprog')
  rw [Multiset.card_add] at hcard
  have hnone : rows = 0 := Multiset.card_eq_zero.mp (by omega)
  rw [hnone, add_zero, ← recorded_eq hprog]
  exact hexact (by omega)

/-! ### The source -/

/-- Inserts and merges leave what the invariant says. -/
theorem Inv.environment (h : w.Inv) {source : PartitionId → List (DataPart ρ)} {nextBlock : ℤ}
    {ids : List PartitionId} (hnext : w.nextBlock ≤ nextBlock)
    (hparts : ∀ p, ∀ q ∈ source p, 0 ≤ q.minBlock ∧ q.maxBlock < nextBlock)
    (hids : ∀ p, p ∉ ids → source p = [] ∧ p ∉ w.ids)
    (hrows : ∀ p b, b < w.nextBlock → rowsUpTo (source p) b = rowsUpTo (w.source p) b) :
    ({ w with source := source, nextBlock := nextBlock, ids := ids } : Rebuild ρ).Inv := by
  set w' : Rebuild ρ := { w with source := source, nextBlock := nextBlock, ids := ids }
  have hexact {p : PartitionId} (hp : w.Exact p) : w'.Exact p :=
    Eq.trans hp (hrows p _ (h.recorded_lt p)).symm
  have htells {p : PartitionId} {rows : Multiset ρ} (hp : w.Tells p rows) : w'.Tells p rows := by
    intro prog hprog hblock hcard hold
    have hsame : rowsUpTo (w'.source p) prog.maxBlock = rowsUpTo (w.source p) prog.maxBlock :=
      hrows p _ (h.recorded p prog hprog)
    rw [hsame] at hold ⊢
    exact hp prog hprog hblock hcard hold
  have hlisted {listing : PartitionId → List (DataPart ρ)} {bound : ℤ}
      (hl : w.Listed listing bound) : w'.Listed listing bound :=
    ⟨hl.nonneg, hl.le.trans hnext, hl.recorded, hl.parts, fun p b hb =>
      (hl.rows p b hb).trans (hrows p b (hb.trans_le hl.le)).symm⟩
  have hchecked {pass : Pass ρ} {todo : List PartitionId} (hc : w.Checked pass todo) :
      w'.Checked pass todo := fun hcheck p hp => hexact (hc hcheck p hp)
  have hcopies {action : Action} {p : PartitionId} {names : List PartName} {maxBlock : ℤ}
      (hcopy : w.CopyInv p names maxBlock action) : w'.CopyInv p names maxBlock action := by
    cases action with
    | full => exact hcopy
    | append =>
      obtain ⟨⟨prog, hprog, hle, hown⟩, hnames⟩ := hcopy
      exact ⟨⟨prog, hprog, hle, fun hcard => hexact (hown hcard)⟩, hnames⟩
    | inSync => exact hcopy
  refine ⟨h.nonneg.trans hnext, hparts, fun p prog hp => (h.recorded p prog hp).trans_le hnext,
    fun p hp => ⟨(hids p hp).1, (h.ids p (hids p hp).2).2⟩, fun p hp => htells (h.tells p hp), ?_,
    fun he => ⟨(h.exchanged he).1, fun p => hexact ((h.exchanged he).2 p)⟩⟩
  have hphase := h.phase
  change w'.PhaseInv w.phase
  cases hw : w.phase with
  | idle => trivial
  | visiting pass =>
    rw [hw] at hphase
    obtain ⟨bound, hl, hc, hn⟩ := hphase
    exact ⟨bound, hlisted hl, hchecked hc, hn⟩
  | counted pass p srcOld =>
    rw [hw] at hphase
    obtain ⟨bound, hl, hc, hn, hcount⟩ := hphase
    exact ⟨bound, hlisted hl, hchecked hc, hn, hcount⟩
  | full pass p | gone pass p =>
    rw [hw] at hphase
    obtain ⟨hcheck, bound, hl, hn⟩ := hphase
    exact ⟨hcheck, bound, hlisted hl, hn⟩
  | copying action pass p names maxBlock =>
    rw [hw] at hphase
    obtain ⟨hcheck, bound, hl, hn, hm, hcopy⟩ := hphase
    exact ⟨hcheck, bound, hlisted hl, hn, hm, hcopies hcopy⟩
  | killed action pass p names maxBlock =>
    rw [hw] at hphase
    obtain ⟨hkilled, hcheck, bound, hl, hn, hm, hcopy⟩ := hphase
    exact ⟨hkilled, hcheck, bound, hlisted hl, hn, hm, hcopies hcopy⟩
  | written action pass p maxBlock =>
    rw [hw] at hphase
    obtain ⟨hkilled, hcheck, bound, hl, hn, hm, hmatches⟩ := hphase
    have hsame : rowsUpTo (w'.source p) maxBlock = rowsUpTo (w.source p) maxBlock :=
      hrows p _ (hm.trans_le hl.le)
    refine ⟨hkilled, hcheck, bound, hlisted hl, hn, hm, fun hcard => ?_⟩
    rw [hsame] at hcard ⊢
    exact hmatches hcard
  | ready =>
    rw [hw] at hphase
    exact fun p => hexact (hphase p)

theorem source_setSource (w : Rebuild ρ) (p : PartitionId) (parts : List (DataPart ρ))
    (q : PartitionId) : (w.setSource p parts).source q = if q = p then parts else w.source q := by
  simp [setSource, Function.update_apply]

theorem Inv.insert (h : w.Inv) (p : PartitionId) (rows : Multiset ρ) :
    ({ w.setSource p (w.source p ++ [.ofInsert w.nextBlock rows]) with
      ids := if p ∈ w.ids then w.ids else p :: w.ids
      nextBlock := w.nextBlock + 1 } : Rebuild ρ).Inv := by
  refine h.environment (by omega) (fun q part hpart => ?_) (fun q hq => ?_) (fun q b hb => ?_)
  · rw [source_setSource] at hpart
    split_ifs at hpart with hqp
    · rcases List.mem_append.mp hpart with hpart | hpart
      · exact (h.parts p part hpart).imp_right fun hlt => hlt.trans (Int.lt_succ w.nextBlock)
      · obtain rfl := List.mem_singleton.mp hpart
        exact ⟨h.nonneg, Int.lt_succ w.nextBlock⟩
    · exact (h.parts q part hpart).imp_right fun hlt => hlt.trans (Int.lt_succ w.nextBlock)
  · have hmem : q ∉ w.ids ∧ q ≠ p := by
      split_ifs at hq with hp
      · exact ⟨hq, fun heq => hq (heq ▸ hp)⟩
      · exact ⟨fun hq' => hq (List.mem_cons_of_mem p hq'), fun heq => hq (heq ▸ List.mem_cons_self)⟩
    rw [source_setSource, if_neg hmem.2]
    exact ⟨(h.ids q hmem.1).1, hmem.1⟩
  · rw [source_setSource]
    split_ifs with hqp
    · rw [hqp]
      exact rowsUpTo_insert hb rows
    · rfl

theorem Inv.merge (h : w.Inv) (p : PartitionId) (i n : ℕ) :
    (w.setSource p (mergeAt (w.source p) i n)).Inv := by
  refine h.environment le_rfl (fun q part hpart => ?_) (fun q hq => ⟨?_, hq⟩) (fun q b _ => ?_)
  · rw [Function.update_apply] at hpart
    split_ifs at hpart with hqp
    · exact bounds_mergeAt (h.parts p) i n part hpart
    · exact h.parts q part hpart
  · rw [Function.update_apply]
    split_ifs with hqp
    · rw [← hqp, (h.ids q hq).1]
      simp [mergeAt]
    · exact (h.ids q hq).1
  · rw [Function.update_apply]
    split_ifs with hqp
    · rw [hqp]
      exact rowsUpTo_mergeAt (w.source p) i n b
    · rfl

/-! ### The run -/

/-- The run gets on, and changes nothing. -/
theorem Inv.setPhase (h : w.Inv) (hexchanged : w.exchanged = false)
    (htells : ∀ p, ¬ phase.Rewrites p → w.Tells p (w.work p)) (hphase : w.PhaseInv phase) :
    (w.setPhase phase).Inv :=
  ⟨h.nonneg, h.parts, h.recorded, h.ids, htells, hphase,
    fun he => nomatch hexchanged.symm.trans he⟩

theorem Inv.abandoned_eq_zero (h : w.Inv) : ∀ q, q ∉ w.ids → w.abandoned q = 0 :=
  fun q hq => (h.ids q hq).2.2

/-- The copy of a partition is changed, and perhaps what abandoned inserts have yet to write. -/
theorem Inv.setWork (h : w.Inv) (hexchanged : w.exchanged = false)
    (hids : p ∉ w.ids → rows = 0) (abandoned : PartitionId → Multiset ρ)
    (habandoned : ∀ q, q ∉ w.ids → abandoned q = 0)
    (htells : ∀ q, q ≠ p → ¬ phase.Rewrites q → w.Tells q (w.work q))
    (hown : ¬ phase.Rewrites p → w.Tells p rows)
    (hphase : ({ w.setWork p rows with abandoned := abandoned } : Rebuild ρ).PhaseInv phase) :
    ({ w.setWork p rows with abandoned := abandoned, phase := phase } : Rebuild ρ).Inv := by
  refine ⟨h.nonneg, h.parts, h.recorded,
    fun q hq => ⟨(h.ids q hq).1, ?_, habandoned q hq⟩, fun q hq => ?_, hphase,
    fun he => nomatch hexchanged.symm.trans he⟩
  · change Function.update w.work p rows q = 0
    rw [Function.update_apply]
    split_ifs with hqp
    · exact hids (hqp ▸ hq)
    · exact (h.ids q hq).2.1
  · change w.Tells q (Function.update w.work p rows q)
    rw [Function.update_apply]
    split_ifs with hqp
    · exact hqp ▸ hown (hqp ▸ hq)
    · exact htells q hqp hq

/-- The run gets on, and saves the progress of a partition. -/
theorem Inv.saveProgress (h : w.Inv) (hexchanged : w.exchanged = false) {prog : Progress}
    {bound : ℤ} (hlisted : w.Listed pass.listing bound) (hcheck : pass.check = false)
    (hnonempty : Pass.Nonempty pass pass.todo) (hblock : prog.maxBlock < bound)
    (htells : ∀ q, q ≠ p → w.Tells q (w.work q))
    (hown : 0 ≤ prog.maxBlock → (w.work p).card = prog.rows →
      (rowsUpTo (w.source p) prog.maxBlock).card = prog.rows →
        w.work p = rowsUpTo (w.source p) prog.maxBlock) :
    ((w.saveProgress p prog).setPhase (.visiting pass)).Inv := by
  have hprogress (q : PartitionId) : (w.saveProgress p prog).progress q =
      if q = p then some prog else w.progress q := by
    simp [Rebuild.saveProgress, Function.update_apply]
  have hlt (q : PartitionId) (prog' : Progress)
      (hq : (w.saveProgress p prog).progress q = some prog') : prog'.maxBlock < bound := by
    rw [hprogress] at hq
    split_ifs at hq
    · exact Option.some.inj hq ▸ hblock
    · exact hlisted.recorded q prog' hq
  refine ⟨h.nonneg, h.parts, fun q prog' hq => (hlt q prog' hq).trans_le hlisted.le, h.ids,
    fun q _ prog' hq hblock' hcard hold => ?_, ?_,
    fun he => nomatch hexchanged.symm.trans he⟩
  · change (w.saveProgress p prog).progress q = some prog' at hq
    rw [hprogress] at hq
    split_ifs at hq with hqp
    · obtain rfl := Option.some.inj hq
      subst hqp
      exact hown hblock' hcard hold
    · exact htells q hqp prog' hq hblock' hcard hold
  · exact ⟨bound, ⟨hlisted.nonneg, hlisted.le, hlt, hlisted.parts, hlisted.rows⟩,
      fun he => (nomatch hcheck.symm.trans he), hnonempty⟩

theorem Inv.not_exchanged (h : w.Inv) (hphase : w.phase ≠ .idle) : w.exchanged = false := by
  by_contra he
  exact hphase (h.exchanged (by simpa using he)).1

theorem Inv.under_way (h : w.Inv) (hphase : w.phase = phase) (hne : phase ≠ .idle) :
    w.exchanged = false ∧ w.PhaseInv phase :=
  ⟨h.not_exchanged (hphase ▸ hne), hphase ▸ h.phase⟩

theorem Inv.tells_of (h : w.Inv) (hphase : w.phase = phase) (hp : ¬ phase.Rewrites p) :
    w.Tells p (w.work p) :=
  h.tells p (hphase ▸ hp)

/-- A pass begins with the parts of the source. -/
theorem Inv.list (h : w.Inv) (hexchanged : w.exchanged = false) (hphase : w.phase = .idle)
    {check : Bool} (hgone : check = true → ∀ p ∈ w.ids, ¬ w.isGone w.source p) :
    (w.setPhase (.visiting ⟨check, w.source,
      (w.ids.filter fun p => w.source p ≠ []).insertionSort (· ≤ ·)⟩)).Inv := by
  have htodo (p : PartitionId) :
      p ∈ (w.ids.filter fun p => w.source p ≠ []).insertionSort (· ≤ ·) ↔
        p ∈ w.ids ∧ w.source p ≠ [] := by
    simp
  refine h.setPhase hexchanged (fun p _ => h.tells_of hphase id) ?_
  refine ⟨w.nextBlock, ⟨h.nonneg, le_rfl, h.recorded, fun p q hq => (h.parts p q hq).2,
    fun _ _ _ => rfl⟩, fun hcheck p hp => ?_, fun p hp => ((htodo p).mp hp).2⟩
  have hsource : w.source p = [] := by
    by_cases hids : p ∈ w.ids
    · by_contra hne
      exact hp ((htodo p).mpr ⟨hids, hne⟩)
    · exact (h.ids p hids).1
  have hwork : w.work p = 0 := by
    by_cases hids : p ∈ w.ids
    · by_contra hne
      exact hgone hcheck p hids ⟨by simpa using hne, hsource⟩
    · exact (h.ids p hids).2.1
  rw [Exact, hwork, hsource]
  rfl

/-- A partition is planned. -/
theorem Inv.plan (h : w.Inv) {srcOld : Option ℕ} (hphase : w.phase = .counted pass p srcOld) :
    (w.planned pass p srcOld ≠ .full → (w.setPhase (.visiting pass)).Inv) ∧
      (w.planned pass p srcOld = .append → pass.check = false →
        (w.setPhase (.copying .append pass p
          ((newParts (pass.listing p) (w.recorded p)).map DataPart.name)
          (lastBlock (newParts (pass.listing p) (w.recorded p))))).Inv) ∧
      (pass.check = false → (w.setPhase (.full pass p)).Inv) ∧ (w.setPhase .idle).Inv := by
  obtain ⟨hexchanged, hinv⟩ := h.under_way hphase nofun
  have htells (q : PartitionId) : w.Tells q (w.work q) := h.tells_of hphase id
  obtain ⟨bound, hlisted, hchecked, hnonempty, hcounted⟩ := hinv
  obtain ⟨hp, hrest⟩ := List.forall_mem_cons.mp hnonempty
  have hexact := exact_of_planned hlisted hp hcounted (htells p)
  refine ⟨fun hplan => ?_, fun hplan hcheck => ?_, fun hcheck => ?_, ?_⟩
  · refine h.setPhase hexchanged (fun q _ => htells q)
      ⟨bound, hlisted, fun hcheck q hq => ?_, hrest⟩
    by_cases hqp : q = p
    · exact hqp ▸ (hexact hplan).1
    · exact hchecked hcheck q (by simp [hqp, hq])
  · obtain ⟨hexact, prog, hprog, hcard⟩ := hexact (by rw [hplan]; exact nofun)
    have hlast (q : DataPart ρ) (hq : q ∈ newParts (pass.listing p) (w.recorded p)) :
        w.recorded p < q.minBlock ∧
          q.maxBlock ≤ lastBlock (newParts (pass.listing p) (w.recorded p)) :=
      ⟨by simpa using (List.mem_filter.mp hq).2, le_lastBlock hq⟩
    have hnew : newParts (pass.listing p) (w.recorded p) ≠ [] := by
      rw [planned, hprog] at hplan
      rw [recorded_eq hprog]
      exact newParts_ne_nil_of_plan hplan
    obtain ⟨q, hq⟩ := List.exists_mem_of_ne_nil _ hnew
    refine h.setPhase hexchanged (fun q _ => htells q) ⟨hcheck, bound, hlisted, hrest,
      lastBlock_lt hlisted.nonneg fun q hq => hlisted.parts p q (List.mem_filter.mp hq).1,
      ⟨prog, hprog, hcard.ge, fun _ => hexact⟩, ?_, fun x hx => ?_⟩
    · exact ((hlast q hq).1.le.trans q.ordered).trans (hlast q hq).2
    · obtain ⟨q, hq, rfl⟩ := List.mem_map.mp hx
      exact hlast q hq
  · exact h.setPhase hexchanged (fun q _ => htells q) ⟨hcheck, bound, hlisted, hrest⟩
  · exact h.setPhase hexchanged (fun q _ => htells q) trivial

/-- A partition is dropped, to be copied again. -/
theorem Inv.drop (h : w.Inv) (hphase : w.phase = .full pass p) :
    ((w.setWork p 0).setPhase (.copying .full pass p ((pass.listing p).map DataPart.name)
      (lastBlock (pass.listing p)))).Inv := by
  obtain ⟨hexchanged, hinv⟩ := h.under_way hphase nofun
  have htells (q : PartitionId) : w.Tells q (w.work q) := h.tells_of hphase id
  obtain ⟨hcheck, bound, hlisted, hrest⟩ := hinv
  refine h.setWork hexchanged (fun _ => rfl) w.abandoned h.abandoned_eq_zero
    (fun q _ _ => htells q) (fun hp => absurd rfl hp)
    ⟨hcheck, bound, hlisted, hrest, lastBlock_lt hlisted.nonneg (hlisted.parts p), fun x hx => ?_⟩
  obtain ⟨q, hq, rfl⟩ := List.mem_map.mp hx
  exact le_lastBlock hq

/-- An abandoned insert is killed, and writes no more. -/
theorem Inv.kill (h : w.Inv) {action : Action}
    (hphase : w.phase = .copying action pass p names maxBlock) :
    ((w.setAbandoned p 0).setPhase (.killed action pass p names maxBlock)).Inv := by
  obtain ⟨hexchanged, hinv⟩ := h.under_way hphase nofun
  refine ⟨h.nonneg, h.parts, h.recorded, fun q hq => ⟨(h.ids q hq).1, (h.ids q hq).2.1, ?_⟩,
    fun q hq => h.tells q ?_, ⟨Function.update_self .., hinv⟩,
    fun he => nomatch hexchanged.symm.trans he⟩
  · change Function.update w.abandoned p 0 q = 0
    rw [Function.update_apply]
    split_ifs
    · rfl
    · exact h.abandoned_eq_zero q hq
  · rw [hphase]
    cases action <;> exact hq

/-- The rows of the named parts come to the copy. -/
theorem work_add_le {action : Action} (hcopy : w.CopyInv p names maxBlock action)
    (hfresh : w.Fresh p action) :
    w.work p + rowsNamed (w.source p) names ≤ rowsUpTo (w.source p) maxBlock := by
  cases action with
  | full =>
    rw [show w.work p = 0 from hfresh, zero_add]
    exact rowsNamed_le hcopy
  | append =>
    obtain ⟨⟨prog, hprog, -, hexact⟩, hle, hnames⟩ := hcopy
    rw [Fresh, hprog] at hfresh
    have hwork : w.work p = rowsUpTo (w.source p) (w.recorded p) := hexact hfresh.symm
    rw [hwork]
    exact rowsUpTo_add_rowsNamed_le hle hnames
  | inSync => exact hcopy.elim

/-- The copy of a partition outside of the source gets nothing. -/
theorem Inv.copied_eq_zero (h : w.Inv) (hrows : rows ≤ rowsNamed (w.source p) names)
    (hp : p ∉ w.ids) : w.work p + rows = 0 := by
  obtain ⟨hsource, hwork, -⟩ := h.ids p hp
  rw [hsource] at hrows
  rw [hwork, zero_add]
  exact Multiset.le_zero.mp hrows

/-- What a copy that appends has written so far shows in the count. -/
theorem CopyInv.tells_add (hcopy : w.CopyInv p names maxBlock .append) (rows : Multiset ρ) :
    w.Tells p (w.work p + rows) := by
  obtain ⟨⟨prog, hprog, hle, hexact⟩, -⟩ := hcopy
  exact Rebuild.tells_add hprog hle hexact rows

/-- The named parts are inserted. -/
theorem Inv.copy (h : w.Inv) {action : Action}
    (hphase : w.phase = .killed action pass p names maxBlock)
    (hguard : w.Fresh p action ∨ w.Matches p maxBlock (w.work p + rowsNamed (w.source p) names)) :
    ((w.setWork p (w.work p + rowsNamed (w.source p) names)).setPhase
      (.written action pass p maxBlock)).Inv := by
  obtain ⟨hexchanged, hinv⟩ := h.under_way hphase nofun
  obtain ⟨hkilled, hcheck, bound, hlisted, hrest, hm, hcopy⟩ := hinv
  refine h.setWork hexchanged (h.copied_eq_zero le_rfl) w.abandoned h.abandoned_eq_zero
    (fun q hq hrew => h.tells q ?_) (fun hp => ?_)
    ⟨hkilled, hcheck, bound, hlisted, hrest, hm, ?_⟩
  · rw [hphase]
    cases action <;> exact hrew
  · cases action with
    | full => exact absurd rfl hp
    | append => exact hcopy.tells_add _
    | inSync => exact hcopy.elim
  · change w.Matches p maxBlock (Function.update w.work p _ p)
    rw [Function.update_self]
    refine hguard.elim (fun hfresh hcard => ?_) id
    exact Multiset.eq_of_le_of_card_le (work_add_le hcopy hfresh) hcard.ge

/-- The progress of a copied partition is saved. -/
theorem Inv.save (h : w.Inv) {action : Action}
    (hphase : w.phase = .written action pass p maxBlock) :
    ((w.saveProgress p ⟨maxBlock, (w.work p).card⟩).setPhase (.visiting pass)).Inv := by
  obtain ⟨hexchanged, hinv⟩ := h.under_way hphase nofun
  obtain ⟨-, hcheck, bound, hlisted, hrest, hm, hmatches⟩ := hinv
  refine h.saveProgress hexchanged hlisted hcheck hrest hm (fun q hq => h.tells q ?_)
    fun _ _ hcard => hmatches hcard.symm
  rw [hphase]
  cases action with
  | full => exact fun heq => hq heq.symm
  | _ => exact id

/-- A partition that the source has no longer is dropped, and its progress is reset. -/
theorem Inv.gone (h : w.Inv) {pass : Pass ρ} (hphase : w.phase = .visiting pass)
    (hcheck : pass.check = false) (p : PartitionId) :
    ((w.setWork p 0).setPhase (.gone pass p)).Inv := by
  obtain ⟨hexchanged, hinv⟩ := h.under_way hphase nofun
  have htells (q : PartitionId) : w.Tells q (w.work q) := h.tells_of hphase id
  obtain ⟨bound, hlisted, -, hrest⟩ := hinv
  refine h.setWork hexchanged (fun _ => rfl) w.abandoned h.abandoned_eq_zero
    (fun q _ _ => htells q) (fun _ => ?_) ⟨hcheck, bound, hlisted, hrest⟩
  intro prog _ _ hcard hold
  exact (Multiset.card_eq_zero.mp (hold.trans hcard.symm)).symm

theorem Inv.saveGone (h : w.Inv) (hphase : w.phase = .gone pass p) :
    ((w.saveProgress p .none).setPhase (.visiting pass)).Inv := by
  obtain ⟨hexchanged, hinv⟩ := h.under_way hphase nofun
  obtain ⟨hcheck, bound, hlisted, hrest⟩ := hinv
  refine h.saveProgress hexchanged hlisted hcheck hrest
    (lt_of_lt_of_le (by decide) hlisted.nonneg) (fun q _ => h.tells_of hphase id)
    fun hblock => absurd hblock (by decide)

/-- The run stops within a copy, and abandons its insert. -/
theorem Inv.stop_killed [DecidableEq ρ] (h : w.Inv) {action : Action}
    (hphase : w.phase = .killed action pass p names maxBlock)
    (hrows : rows ≤ rowsNamed (w.source p) names)
    (hguard : action = .full → w.Tells p (w.work p + rows)) :
    (((w.setWork p (w.work p + rows)).setAbandoned p
      (rowsNamed (w.source p) names - rows)).setPhase .idle).Inv := by
  obtain ⟨hexchanged, hinv⟩ := h.under_way hphase nofun
  obtain ⟨-, -, -, -, -, -, hcopy⟩ := hinv
  refine h.setWork hexchanged (h.copied_eq_zero hrows)
    (Function.update w.abandoned p (rowsNamed (w.source p) names - rows)) (fun q hq => ?_)
    (fun q hq _ => h.tells q ?_) (fun _ => ?_) trivial
  · rw [Function.update_apply]
    split_ifs with hqp
    · rw [← hqp, (h.ids q hq).1]
      exact Multiset.le_zero.mp (Multiset.sub_le_self 0 rows)
    · exact h.abandoned_eq_zero q hq
  · rw [hphase]
    cases action with
    | full => exact fun heq => hq heq.symm
    | _ => exact id
  · cases action with
    | full => exact hguard rfl
    | append => exact hcopy.tells_add rows
    | inSync => exact hcopy.elim

/-! ### Abandoned inserts -/

/-- The tables after an abandoned insert has written rows. -/
def abandonedWrites [DecidableEq ρ] (w : Rebuild ρ) (p : PartitionId) (rows : Multiset ρ) :
    Rebuild ρ :=
  (w.setWork p (w.work p + rows)).setAbandoned p (w.abandoned p - rows)

/-- **An abandoned insert** writes to a partition that is not ready for the exchange. -/
theorem PhaseInv.abandoned [DecidableEq ρ] (hinv : w.PhaseInv w.phase) (hsettled : ¬ w.Settled p)
    (hpos : w.abandoned p ≠ 0) : (w.abandonedWrites p rows).PhaseInv w.phase := by
  have hwork {q : PartitionId} (hne : q ≠ p) : (w.abandonedWrites p rows).work q = w.work q :=
    Function.update_of_ne hne _ _
  have hleft {q : PartitionId} (hne : q ≠ p) :
      (w.abandonedWrites p rows).abandoned q = w.abandoned q :=
    Function.update_of_ne hne _ _
  have hexact {q : PartitionId} (hne : q ≠ p) (hq : w.Exact q) :
      (w.abandonedWrites p rows).Exact q := (hwork hne).trans hq
  have hcopies {action : Action} {q : PartitionId} {names : List PartName} {maxBlock : ℤ}
      (hcopy : w.CopyInv q names maxBlock action) :
      (w.abandonedWrites p rows).CopyInv q names maxBlock action := by
    cases action with
    | full => exact hcopy
    | append =>
      obtain ⟨⟨prog, hprog, hle, hown⟩, hnames⟩ := hcopy
      refine ⟨⟨prog, hprog, ?_, fun hcard => ?_⟩, hnames⟩
      · by_cases hqp : q = p
        · subst hqp
          change prog.rows ≤ (Function.update w.work q _ q).card
          rw [Function.update_self, Multiset.card_add]
          omega
        · rw [hwork hqp]
          exact hle
      · by_cases hqp : q = p
        · subst hqp
          change (Function.update w.work q _ q).card = _ at hcard
          rw [Function.update_self, Multiset.card_add] at hcard
          have hnone : rows = 0 := Multiset.card_eq_zero.mp (by omega)
          change Function.update w.work q _ q = _
          rw [Function.update_self, hnone, add_zero]
          exact hown (by omega)
        · rw [hwork hqp] at hcard
          exact hexact hqp (hown hcard)
    | inSync => exact hcopy
  unfold Settled at hsettled
  cases hphase : w.phase with
  | idle => trivial
  | visiting pass =>
    rw [hphase] at hinv hsettled
    obtain ⟨bound, hlisted, hchecked, hrest⟩ := hinv
    refine ⟨bound, hlisted, fun hcheck q hq => hexact ?_ (hchecked hcheck q hq), hrest⟩
    rintro rfl
    exact hsettled (.inr ⟨hcheck, hq⟩)
  | counted pass q srcOld =>
    rw [hphase] at hinv hsettled
    obtain ⟨bound, hlisted, hchecked, hrest, hcounted⟩ := hinv
    refine ⟨bound, hlisted, fun hcheck q hq => hexact ?_ (hchecked hcheck q hq), hrest, hcounted⟩
    rintro rfl
    exact hsettled (.inr ⟨hcheck, hq⟩)
  | full pass q | gone pass q =>
    rw [hphase] at hinv
    exact hinv
  | copying action pass q names maxBlock =>
    rw [hphase] at hinv
    obtain ⟨hcheck, bound, hlisted, hrest, hm, hcopy⟩ := hinv
    exact ⟨hcheck, bound, hlisted, hrest, hm, hcopies hcopy⟩
  | killed action pass q names maxBlock =>
    rw [hphase] at hinv
    obtain ⟨hkilled, hcheck, bound, hlisted, hrest, hm, hcopy⟩ := hinv
    have hne : q ≠ p := fun heq => hpos (heq ▸ hkilled)
    exact ⟨(hleft hne).trans hkilled, hcheck, bound, hlisted, hrest, hm, hcopies hcopy⟩
  | written action pass q maxBlock =>
    rw [hphase] at hinv
    obtain ⟨hkilled, hcheck, bound, hlisted, hrest, hm, hmatches⟩ := hinv
    have hne : q ≠ p := fun heq => hpos (heq ▸ hkilled)
    refine ⟨(hleft hne).trans hkilled, hcheck, bound, hlisted, hrest, hm, ?_⟩
    rw [hwork hne]
    exact hmatches
  | ready =>
    rw [hphase] at hsettled
    exact absurd (.inr trivial) hsettled

/-- An abandoned insert writes some of the rows that it has not written yet. -/
theorem Inv.abandon [DecidableEq ρ] (h : w.Inv)
    (htells : w.phase.Rewrites p ∨ w.Tells p (w.work p + rows)) (hsettled : w.Settled p → rows = 0)
    (hle : rows ≤ w.abandoned p) : (w.abandonedWrites p rows).Inv := by
  by_cases hrows : rows = 0
  · have hsame : w.abandonedWrites p 0 = w := by
      simp [abandonedWrites, Rebuild.setWork, setAbandoned]
    rw [hrows, hsame]
    exact h
  · have hpos : w.abandoned p ≠ 0 := fun heq => hrows (Multiset.le_zero.mp (heq ▸ hle))
    have hnot : ¬ w.Settled p := mt hsettled hrows
    have hids : p ∈ w.ids := by
      by_contra hp
      exact hpos (h.ids p hp).2.2
    refine h.setWork (by simpa [Settled] using mt Or.inl hnot) (absurd hids)
      (Function.update w.abandoned p (w.abandoned p - rows)) (fun q hq => ?_)
      (fun q _ => h.tells q) htells.resolve_left (h.phase.abandoned hnot hpos)
    have hne : q ≠ p := fun heq => hq (heq ▸ hids)
    rw [Function.update_of_ne hne]
    exact h.abandoned_eq_zero q hq

/-- The run stops elsewhere. -/
theorem Inv.stop (h : w.Inv) (hphase : w.phase ≠ .idle)
    (hguard : ∀ p, w.phase.Rewrites p → w.Tells p (w.work p)) : (w.setPhase .idle).Inv := by
  refine h.setPhase (h.not_exchanged hphase) (fun p _ => ?_) trivial
  by_cases hp : w.phase.Rewrites p
  · exact hguard p hp
  · exact h.tells p hp

/-- **One event** keeps the invariant. -/
theorem Inv.step [DecidableEq ρ] (h : w.Inv) {e : RebuildEvent ρ} (hguard : w.Careful e)
    (hstep : w.step e = some w') : w'.Inv := by
  cases e with
  | insert p rows =>
    obtain rfl := Option.some.inj hstep
    exact h.insert p rows
  | merge p i n =>
    obtain rfl := Option.some.inj hstep
    exact h.merge p i n
  | abandoned p rows =>
    obtain ⟨hle, rfl⟩ := made_of_guard hstep
    exact h.abandon hguard.1 hguard.2 hle
  | list check =>
    simp only [Rebuild.step] at hstep
    split at hstep <;> try contradiction
    next hphase =>
      split_ifs at hstep with hexchanged hgone
      · obtain rfl := Option.some.inj hstep
        exact h
      · obtain rfl := Option.some.inj hstep
        exact h.list (by simpa using hexchanged) hphase
          fun hcheck p hp hg => hgone ⟨hcheck, p, hp, hg⟩
  | countSource =>
    simp only [Rebuild.step] at hstep
    split at hstep <;> try contradiction
    next check listing p todo hphase =>
      obtain ⟨hexchanged, hinv⟩ := h.under_way hphase nofun
      have htells (q : PartitionId) : w.Tells q (w.work q) := h.tells_of hphase id
      obtain ⟨bound, hlisted, hchecked, hnonempty⟩ := hinv
      rw [Careful, hphase] at hguard
      split_ifs at hstep
      · obtain rfl := Option.some.inj hstep
        exact h.setPhase hexchanged (fun q _ => htells q) trivial
      · obtain rfl := Option.some.inj hstep
        refine h.setPhase hexchanged (fun q _ => htells q)
          ⟨bound, hlisted, hchecked, hnonempty, fun prog hprog hcount => hguard prog hprog ?_⟩
        rw [hprog] at hcount
        exact hcount
  | plan =>
    simp only [Rebuild.step] at hstep
    split at hstep <;> try contradiction
    next pass p srcOld hphase =>
      obtain ⟨hvisit, happend, hfull, hidle⟩ := h.plan hphase
      split at hstep
      · obtain rfl := Option.some.inj hstep
        split_ifs with hcheck
        · exact hidle
        · exact hfull (by simpa using hcheck)
      · next hplan =>
        obtain rfl := Option.some.inj hstep
        split_ifs with hcheck
        · exact hvisit (by rw [hplan]; exact nofun)
        · exact happend hplan (by simpa using hcheck)
      · next hplan =>
        obtain rfl := Option.some.inj hstep
        exact hvisit (by rw [hplan]; exact nofun)
  | drop =>
    simp only [Rebuild.step] at hstep
    split at hstep <;> try contradiction
    next hphase =>
      obtain rfl := Option.some.inj hstep
      exact h.drop hphase
  | kill =>
    simp only [Rebuild.step] at hstep
    split at hstep <;> try contradiction
    next hphase =>
      obtain rfl := Option.some.inj hstep
      exact h.kill hphase
  | copy =>
    simp only [Rebuild.step] at hstep
    split at hstep <;> try contradiction
    next hphase =>
      obtain rfl := Option.some.inj hstep
      rw [Careful, hphase] at hguard
      exact h.copy hphase hguard
  | save =>
    simp only [Rebuild.step] at hstep
    split at hstep <;> try contradiction
    · next hphase =>
      obtain rfl := Option.some.inj hstep
      exact h.save hphase
    · next hphase =>
      obtain rfl := Option.some.inj hstep
      exact h.saveGone hphase
  | gone p =>
    simp only [Rebuild.step] at hstep
    split at hstep <;> try contradiction
    next hphase =>
      obtain ⟨-, rfl⟩ := made_of_guard hstep
      exact h.gone hphase rfl p
  | finish =>
    simp only [Rebuild.step] at hstep
    split at hstep <;> try contradiction
    · next listing hphase =>
      obtain rfl := Option.some.inj hstep
      obtain ⟨hexchanged, hinv⟩ := h.under_way hphase nofun
      obtain ⟨-, -, hchecked, -⟩ := hinv
      exact h.setPhase hexchanged (fun q _ => h.tells_of hphase id)
        fun p => hchecked rfl p List.not_mem_nil
    · next hphase =>
      obtain ⟨-, rfl⟩ := made_of_guard_not hstep
      exact h.stop (by rw [hphase]; exact nofun)
        (by rw [hphase]; exact fun p hp => hp.elim)
  | exchange =>
    simp only [Rebuild.step] at hstep
    split at hstep <;> try contradiction
    next hphase =>
      obtain rfl := Option.some.inj hstep
      have hinv := h.phase
      rw [hphase] at hinv
      exact ⟨h.nonneg, h.parts, h.recorded, h.ids,
        fun p _ => h.tells_of hphase id, trivial, fun _ => ⟨rfl, hinv⟩⟩
  | stop rows =>
    simp only [Rebuild.step] at hstep
    split at hstep <;> try contradiction
    · next action pass p names maxBlock hphase =>
      obtain ⟨hrows, rfl⟩ := made_of_guard hstep
      refine h.stop_killed hphase hrows fun haction => ?_
      subst haction
      rw [Careful, hphase] at hguard
      exact hguard
    · next hidle hkilled =>
      obtain rfl := Option.some.inj hstep
      refine h.stop hidle fun p hp => ?_
      cases hphase : w.phase with
      | copying action pass q names maxBlock | written action pass q maxBlock =>
        rw [hphase] at hp
        cases action with
        | full =>
          obtain rfl : q = p := hp
          rw [Careful, hphase] at hguard
          exact hguard
        | _ => exact hp.elim
      | killed action pass q names maxBlock => exact (hkilled _ _ _ _ _ hphase).elim
      | _ => rw [hphase] at hp; exact hp.elim

/-- **The plan is right in every careful run**: the copy of a partition that is in sync, or is
appended to, holds exactly the rows of the recorded blocks; so does the whole work table when the
tables are exchanged, which are all rows of the source where nothing has been inserted since. -/
theorem exact_of_plan [DecidableEq ρ] {l : List (RebuildEvent ρ)}
    (hrun : Run (Guarded Careful Step) (init : Rebuild ρ) l w) :
    (∀ pass p srcOld, w.phase = .counted pass p srcOld → w.planned pass p srcOld ≠ .full →
        w.Exact p) ∧
      (w.exchanged = true → ∀ p, w.Exact p ∧
        ((∀ q ∈ w.source p, q.maxBlock ≤ w.recorded p) → w.work p = allRows (w.source p))) := by
  have h : w.Inv := hrun.invariant (fun _ _ _ h hstep => h.step hstep.1 hstep.2) inv_init
  refine ⟨fun pass p srcOld hphase hplan => ?_, fun he p => ?_⟩
  · have hinv := h.phase
    rw [hphase] at hinv
    obtain ⟨bound, hlisted, -, hnonempty, hcounted⟩ := hinv
    exact (exact_of_planned hlisted (hnonempty p List.mem_cons_self) hcounted
      (h.tells_of hphase id) hplan).1
  · have hexact := (h.exchanged he).2 p
    exact ⟨hexact, fun hlast => Eq.trans hexact (rowsUpTo_eq_allRows hlast)⟩

end Steps

/-! ### Samples -/

local instance {α : Type} (o : Option α) (P : α → Prop) [DecidablePred P] :
    Decidable (∀ a, o = some a → P a) :=
  inferInstanceAs (Decidable (∀ a ∈ o, P a))

instance [DecidableEq ρ] (w : Rebuild ρ) (p : PartitionId) (rows : Multiset ρ) :
    Decidable (w.Tells p rows) := by
  unfold Tells
  infer_instance

instance (phase : RebuildPhase ρ) (p : PartitionId) : Decidable (phase.Rewrites p) := by
  unfold RebuildPhase.Rewrites
  split <;> infer_instance

instance (w : Rebuild ρ) (p : PartitionId) : Decidable (w.Settled p) := by
  unfold Settled
  refine @instDecidableOr _ _ inferInstance ?_
  split <;> infer_instance

instance [DecidableEq ρ] (w : Rebuild ρ) (p : PartitionId) (action : Action) :
    Decidable (w.Fresh p action) := by
  unfold Fresh
  split <;> infer_instance

instance [DecidableEq ρ] (w : Rebuild ρ) (e : RebuildEvent ρ) : Decidable (w.Careful e) := by
  unfold Careful Matches
  split
  · split <;> infer_instance
  · infer_instance
  · split <;> infer_instance
  · split <;> infer_instance
  · infer_instance

/-- A partition is visited and planned. -/
def sampleVisit : List (RebuildEvent Char) := [.list false, .countSource]

/-- A row is inserted, and its partition is copied. -/
def sampleCopied : List (RebuildEvent Char) :=
  .insert "202601" {'a'} :: (sampleVisit ++ [.plan, .drop, .kill, .copy, .save, .finish])

/-- Another row is inserted. The run stops after it has appended the row, and again after it has
dropped the partition and copied the other row only. -/
def sampleStopped : List (RebuildEvent Char) :=
  .insert "202601" {'b'} :: (sampleVisit ++ [.plan, .kill, .stop {'b'}] ++
    sampleVisit ++ [.plan, .drop, .kill, .stop {'b'}])

/-- What is planned for the counted partition, and whether its copy is exact. -/
def sampleView (w : Rebuild Char) : Option (Action × Bool) :=
  match w.phase with
  | .counted pass p srcOld =>
      some (w.planned pass p srcOld, w.work p = rowsUpTo (w.source p) (w.recorded p))
  | _ => none

theorem exists_counted_of_sampleView {w : Rebuild Char} {action : Action} {exact : Bool}
    (h : sampleView w = some (action, exact)) : ∃ pass p srcOld, w.phase = .counted pass p srcOld ∧
      w.planned pass p srcOld = action ∧ (w.Exact p ↔ exact = true) := by
  unfold sampleView at h
  split at h
  · next pass p srcOld hphase =>
    obtain ⟨hplan, hexact⟩ := Prod.mk.inj (Option.some.inj h)
    exact ⟨pass, p, srcOld, hphase, hplan, by rw [← hexact, decide_eq_true_eq]; rfl⟩
  · cases h

/-- A copy that is in sync. -/
theorem exact_of_plan_sampleCopied : ∃ w : Rebuild Char,
    Run (Guarded Careful Step) init (sampleCopied ++ sampleVisit) w ∧
      ∃ pass p srcOld, w.phase = .counted pass p srcOld ∧ w.planned pass p srcOld = .inSync ∧
        w.Exact p := by
  have hview : ((sampleCopied ++ sampleVisit).foldlM
      (fun (w : Rebuild Char) e => if w.Careful e then w.step e else none) init).map sampleView =
        some (some (.inSync, true)) := by
    decide +kernel
  obtain ⟨w, hw, heq⟩ := Option.map_eq_some_iff.mp hview
  have hrun := Run.guarded_of_foldlM hw
  obtain ⟨pass, p, srcOld, hphase, hplan, -⟩ := exists_counted_of_sampleView heq
  exact ⟨w, hrun, pass, p, srcOld, hphase, hplan,
    (exact_of_plan hrun).1 pass p srcOld hphase (by rw [hplan]; exact nofun)⟩

/-- The run appends to a copy that holds another row than recorded. -/
theorem append_to_other_rows :
    ¬∀ (ρ : Type) (_ : DecidableEq ρ) (l : List (RebuildEvent ρ)) (w : Rebuild ρ),
      Run Step init l w → ∀ pass p srcOld, w.phase = .counted pass p srcOld →
        w.planned pass p srcOld ≠ .full → w.Exact p := by
  intro hall
  have hview : ((sampleCopied ++ sampleStopped ++ sampleVisit).foldlM
      (fun (w : Rebuild Char) e => w.step e) init).map sampleView =
        some (some (.append, false)) := by
    decide +kernel
  obtain ⟨w, hw, heq⟩ := Option.map_eq_some_iff.mp hview
  obtain ⟨pass, p, srcOld, hphase, hplan, hexact⟩ := exists_counted_of_sampleView heq
  have hnot := hall Char _ _ w (Run.of_foldlM hw) pass p srcOld hphase
    (by rw [hplan]; exact nofun)
  cases hexact.mp hnot

end Rebuild

end Nodeglow.ClickHouse
