import Nodeglow.Backend.ClickHouse.DeltaCopy
import Nodeglow.Backend.ClickHouse.RebuildRuns

/-!
# Runs of the delta copy

The live table holds, of every partition, the rows of the blocks up to some block, each once,
however often a run stops (`Delta.copied_once`). A pending intent tells what the staging table is
for: as long as staged rows are there they are missing from the live table, and when they are gone
they have been moved. So it says, for both, up to which block the live table will be complete, and
it is enough to finish it.

The leftovers in the staging table are discarded before the insert that has left them is killed.
Rows that it stages in between are staged again, and moved twice (`Delta.row_copied_twice`).

## Main results

* `Delta.add_lateRows` — the late parts are what is missing.
* `Delta.Kept.intend`, `Delta.Kept.move`, `Delta.Kept.clear` — intents.
* `Delta.Inv.step`, `Delta.copied_once` — one event, and whole runs.
* `Rebuild.exchanged_exchangedTables` — what a rebuild exchanges.

Source: `backend/services/clickhouse_rebuild.py`, lines 363–371, 414–507 and 585–621.
-/

namespace Nodeglow.ClickHouse

open MergeTree

variable {ρ : Type}

/-! ### The plan -/

section Plan

variable {parts : List (DataPart ρ)} {prog : Progress}

theorem deltaPlan_fst (h : ∀ q ∈ parts, 0 ≤ q.minBlock) :
    (deltaPlan parts prog).1 = newParts parts prog.maxBlock := by
  unfold deltaPlan
  split_ifs with hblock
  · exact (List.filter_eq_self.mpr fun q hq => by simpa using hblock.trans_le (h q hq)).symm
  · rfl

theorem deltaPlan_snd (h : ∀ q ∈ parts, q.maxBlock ≤ prog.maxBlock ∨ prog.maxBlock < q.minBlock) :
    (deltaPlan parts prog).2 = true := by
  unfold deltaPlan
  split_ifs
  · rfl
  · rw [decide_eq_true_eq]
    induction parts with
    | nil => rfl
    | cons q parts ih =>
      obtain ⟨hq, hparts⟩ := List.forall_mem_cons.mp h
      have ih := ih hparts
      have hordered := q.ordered
      simp only [newParts, oldParts, List.filter_cons, decide_eq_true_eq] at ih ⊢
      split_ifs <;> simp only [List.length_cons] <;> omega

/-- The parts after a block, by their names. -/
theorem rowsNamed_newParts (parts : List (DataPart ρ)) (b : ℤ) :
    rowsNamed parts ((newParts parts b).map DataPart.name) = allRows (newParts parts b) := by
  unfold rowsNamed newParts
  refine congrArg allRows (List.filter_congr fun q hq => ?_)
  rw [decide_eq_decide, List.mem_map]
  constructor
  · rintro ⟨q', hq', hname⟩
    have hlt : b < q'.minBlock := by simpa using (List.mem_filter.mp hq').2
    exact hlt.trans_eq (congrArg PartName.minBlock hname)
  · exact fun hlt => ⟨q, List.mem_filter.mpr ⟨hq, by simpa using hlt⟩, rfl⟩

end Plan

namespace Delta

/-! ### The invariant -/

/-- What the tables and the progress keep to, wherever the run is. -/
structure Kept (w : Delta ρ) : Prop where
  nonneg : 0 ≤ w.nextBlock
  parts : ∀ p, ∀ q ∈ w.old p, 0 ≤ q.minBlock ∧ q.maxBlock < w.nextBlock
  ids : ∀ p, p ∉ w.ids → w.old p = []
  recorded : ∀ p, (w.progress p).maxBlock < w.nextBlock
  settled : ∀ p, ¬ w.Pending p → Records (w.old p) w.nextBlock (w.progress p) (w.live p)
  pending : ∀ p, w.Pending p → p ∈ w.ids ∧ w.abandoned p = 0 ∧
    Records (w.old p) w.nextBlock (w.intent p) (w.live p + w.staging p) ∧
      (w.staging p = 0 ∨ w.live p = rowsUpTo (w.old p) (w.progress p).maxBlock)

/-- Of every partition, the parts that were listed and those inserted since. -/
def Listed (w : Delta ρ) (listing : PartitionId → List (DataPart ρ)) : Prop :=
  ∀ p, ∃ late, w.old p = listing p ++ late ∧ ∀ q ∈ late,
    (w.progress p).maxBlock < q.minBlock ∧ lastBlock (listing p) < q.minBlock

/-- Intents are pending of the partitions that are still to finish, and of that in hand. A listed
partition that is no longer to visit is recorded. -/
def RestInv (w : Delta ρ) (hand : Option PartitionId) : Rest ρ → Prop
  | .finishing todo => ∀ p, w.Pending p → some p = hand ∨ p ∈ todo
  | .copying listing todo => w.Listed listing ∧ (∀ p, w.Pending p → some p = hand) ∧
      ∀ p, p ∉ todo → some p = hand ∨ ∀ q ∈ listing p, q.maxBlock ≤ (w.progress p).maxBlock

/-- The progress is that of a visited partition. -/
def Reaches (p : PartitionId) (done : Progress) : Rest ρ → Prop
  | .finishing _ => True
  | .copying listing _ => done.maxBlock = lastBlock (listing p)

/-- The late parts of a partition are being copied. -/
def Copying (w : Delta ρ) (listing : PartitionId → List (DataPart ρ)) (todo : List PartitionId)
    (p : PartitionId) : Prop :=
  w.RestInv (some p) (.copying listing todo) ∧ ¬ w.Pending p ∧ 0 ≤ lastBlock (listing p)

/-- An intent is being finished. -/
def Finishing (w : Delta ρ) (rest : Rest ρ) (p : PartitionId) : Prop :=
  w.RestInv (some p) rest ∧ w.Pending p ∧ Reaches p (w.intent p) rest

def PhaseInv (w : Delta ρ) : DeltaPhase ρ → Prop
  | .idle => True
  | .rest rest => w.RestInv none rest
  | .found listing todo p => w.Copying listing todo p
  | .discarded listing todo p => w.Copying listing todo p ∧ w.staging p = 0
  | .killed listing todo p => w.Copying listing todo p ∧ w.staging p = 0 ∧ w.abandoned p = 0
  | .staged listing todo p => w.Copying listing todo p ∧ w.abandoned p = 0 ∧
      w.live p + w.staging p = rowsUpTo (w.old p) (lastBlock (listing p))
  | .intended rest p n done => w.Finishing rest p ∧ done = w.intent p ∧ n = (w.staging p).card
  | .moved rest p done => w.Finishing rest p ∧ done = w.intent p ∧ w.staging p = 0
  | .recorded rest p => w.Finishing rest p ∧ w.progress p = w.intent p ∧ w.staging p = 0
  | .copied listing => w.RestInv none (.copying listing [])
  | .verified => ∀ p, w.live p = allRows (w.old p)

structure Inv (w : Delta ρ) : Prop where
  kept : w.Kept
  phase : w.PhaseInv w.phase
  attention : w.attention ≠ some .mixed
  dropped : w.dropped = true → w.phase = .idle ∧ ∀ p, w.live p = allRows (w.old p)

section Steps

variable {w w' : Delta ρ} {p : PartitionId} {rows : Multiset ρ} {prog done : Progress}
  {listing : PartitionId → List (DataPart ρ)} {todo : List PartitionId} {rest : Rest ρ}
  {hand : Option PartitionId}

/-- What the exchange leaves. -/
theorem Exchanged.inv (h : w.Exchanged) : w.Inv where
  kept :=
    { nonneg := h.nonneg
      parts := h.parts
      ids := h.ids
      recorded := fun p => (h.records p).lt
      settled := fun p _ => h.records p
      pending := fun p hp => by
        rw [Pending, h.intent p] at hp
        exact absurd hp (by decide) }
  phase := by
    rw [h.phase]
    trivial
  attention := by
    rw [h.attention]
    exact fun heq => nomatch heq
  dropped hdropped := by
    rw [h.dropped] at hdropped
    cases hdropped

/-! ### The late parts -/

theorem Listed.parts (hlisted : w.Listed listing) {q : DataPart ρ} (hq : q ∈ listing p) :
    q ∈ w.old p := by
  obtain ⟨late, hold, -⟩ := hlisted p
  rw [hold]
  exact List.mem_append_left _ hq

theorem Listed.lastBlock_lt (hlisted : w.Listed listing) (h : w.Kept) (p : PartitionId) :
    lastBlock (listing p) < w.nextBlock :=
  ClickHouse.lastBlock_lt h.nonneg fun q hq => (h.parts p q (hlisted.parts hq)).2

/-- The rows up to the last listed block are those of the listed parts. -/
theorem Listed.rowsUpTo_lastBlock (hlisted : w.Listed listing) (p : PartitionId) :
    rowsUpTo (w.old p) (lastBlock (listing p)) = allRows (listing p) := by
  obtain ⟨late, hold, hlate⟩ := hlisted p
  rw [hold, rowsUpTo_append, rowsUpTo_of_forall_lt fun q hq => (hlate q hq).2, add_zero]
  exact rowsUpTo_eq_allRows fun q hq => le_lastBlock hq

/-- **The late parts** are what is missing of the listed ones. -/
theorem add_lateRows (h : w.Kept) (hlisted : w.Listed listing) (hp : ¬ w.Pending p) :
    w.live p + w.lateRows listing p = rowsUpTo (w.old p) (lastBlock (listing p)) := by
  have hrecords := h.settled p hp
  rw [hlisted.rowsUpTo_lastBlock, hrecords.eq, lateRows,
    deltaPlan_fst fun q hq => (h.parts p q (hlisted.parts hq)).1]
  have hwhole (q : DataPart ρ) (hq : q ∈ listing p) := hrecords.whole q (hlisted.parts hq)
  obtain ⟨late, hold, hlate⟩ := hlisted p
  have hnone :
      rowsNamed late ((newParts (listing p) (w.progress p).maxBlock).map DataPart.name) = 0 := by
    refine rowsNamed_eq_zero fun q hq hname => ?_
    obtain ⟨q', hq', heq⟩ := List.mem_map.mp hname
    have hle := le_lastBlock (List.mem_filter.mp hq').1
    have hmax : q'.maxBlock = q.maxBlock := congrArg PartName.maxBlock heq
    have hlt := (hlate q hq).2
    have hordered := q.ordered
    omega
  rw [hold, rowsUpTo_append, rowsUpTo_of_forall_lt fun q hq => (hlate q hq).1, add_zero,
    rowsNamed_append, hnone, add_zero, rowsNamed_newParts]
  exact rowsUpTo_add_allRows_filter hwhole

/-- The parts that were copied, and those that are to be copied, are whole. -/
theorem Listed.deltaPlan_snd (hlisted : w.Listed listing) (h : w.Kept) (hp : ¬ w.Pending p) :
    (deltaPlan (listing p) (w.progress p)).2 = true :=
  ClickHouse.deltaPlan_snd fun q hq => (h.settled p hp).whole q (hlisted.parts hq)

/-- Where there are no new parts, every part is recorded. -/
theorem maxBlock_le_of_newParts_eq_nil {parts : List (DataPart ρ)} {b : ℤ}
    (hwhole : ∀ q ∈ parts, q.maxBlock ≤ b ∨ b < q.minBlock) (h : newParts parts b = []) :
    ∀ q ∈ parts, q.maxBlock ≤ b := fun q hq =>
  (hwhole q hq).resolve_right (by simpa using List.filter_eq_nil_iff.mp h q hq)

/-! ### The tables -/

theorem Kept.setPhase (h : w.Kept) (phase : DeltaPhase ρ) : (w.setPhase phase).Kept :=
  ⟨h.nonneg, h.parts, h.ids, h.recorded, h.settled, h.pending⟩

/-- The tables keep to it however a run ends. -/
theorem Kept.ended (h : w.Kept) (deltaDone : Bool) (attention : Option Attention) (dropped : Bool) :
    { w.setPhase .idle with
      deltaDone := deltaDone, attention := attention, dropped := dropped : Delta ρ }.Kept :=
  ⟨h.nonneg, h.parts, h.ids, h.recorded, h.settled, h.pending⟩

/-- The tables after an insert into the old one. -/
def inserted (w : Delta ρ) (p : PartitionId) (rows : Multiset ρ) : Delta ρ :=
  { w with
    ids := if p ∈ w.ids then w.ids else p :: w.ids
    old := Function.update w.old p (w.old p ++ [.ofInsert w.nextBlock rows])
    nextBlock := w.nextBlock + 1 }

/-- An insert leaves the rows of the blocks before it. -/
theorem rowsUpTo_inserted {b : ℤ} (hb : b < w.nextBlock) (p q : PartitionId) (rows : Multiset ρ) :
    rowsUpTo ((w.inserted p rows).old q) b = rowsUpTo (w.old q) b := by
  change rowsUpTo (Function.update w.old p _ q) b = _
  rw [Function.update_apply]
  split_ifs with hq
  · rw [hq, rowsUpTo_insert hb]
  · rfl

/-- The parts after an insert are those before it, and perhaps a new one. -/
theorem mem_inserted {q : PartitionId} {x : DataPart ρ} (hx : x ∈ (w.inserted p rows).old q) :
    x ∈ w.old q ∨ (x.minBlock = w.nextBlock ∧ x.maxBlock = w.nextBlock) := by
  change x ∈ Function.update w.old p _ q at hx
  rw [Function.update_apply] at hx
  split_ifs at hx with hq
  · subst hq
    rcases List.mem_append.mp hx with hx | hx
    · exact .inl hx
    · obtain rfl := List.mem_singleton.mp hx
      exact .inr ⟨rfl, rfl⟩
  · exact .inl hx

/-- What is recorded of a partition stays recorded when rows are inserted. -/
theorem records_inserted {q : PartitionId} {rows' : Multiset ρ}
    (h : Records (w.old q) w.nextBlock prog rows') :
    Records ((w.inserted p rows).old q) (w.nextBlock + 1) prog rows' where
  lt := h.lt.trans (Int.lt_succ _)
  whole x hx := by
    rcases mem_inserted hx with hx | ⟨hmin, -⟩
    · exact h.whole x hx
    · rw [hmin]
      exact .inr h.lt
  eq := by
    rw [rowsUpTo_inserted h.lt]
    exact h.eq
  card := h.card

theorem mem_inserted_ids {q : PartitionId} (hq : q ∈ w.ids ∨ q = p) :
    q ∈ (w.inserted p rows).ids := by
  change q ∈ if p ∈ w.ids then w.ids else p :: w.ids
  split_ifs with hp
  · exact hq.elim id fun heq => heq ▸ hp
  · exact List.mem_cons.mpr hq.symm

theorem Kept.insert (h : w.Kept) (p : PartitionId) (rows : Multiset ρ) :
    (w.inserted p rows).Kept where
  nonneg := h.nonneg.trans (Int.lt_succ _).le
  parts q x hx := by
    have hnonneg := h.nonneg
    change 0 ≤ x.minBlock ∧ x.maxBlock < w.nextBlock + 1
    rcases mem_inserted hx with hx | ⟨hmin, hmax⟩
    · have hx := h.parts q x hx
      omega
    · omega
  ids q hq := by
    have hne : q ≠ p := fun heq => hq (mem_inserted_ids (.inr heq))
    change Function.update w.old p _ q = []
    rw [Function.update_of_ne hne]
    exact h.ids q fun hmem => hq (mem_inserted_ids (.inl hmem))
  recorded q := (h.recorded q).trans (Int.lt_succ _)
  settled q hq := records_inserted (h.settled q hq)
  pending q hq := by
    obtain ⟨hids, habandoned, hrecords, hstaging⟩ := h.pending q hq
    refine ⟨mem_inserted_ids (.inl hids), habandoned, records_inserted hrecords,
      hstaging.imp_right ?_⟩
    intro hlive
    exact hlive.trans (rowsUpTo_inserted (h.recorded q) p q rows).symm

/-- What is staged of a settled partition does not matter. -/
theorem Kept.setStaging (h : w.Kept) (hp : ¬ w.Pending p) (rows : Multiset ρ) :
    (w.setStaging p rows).Kept :=
  ⟨h.nonneg, h.parts, h.ids, h.recorded, h.settled, fun q hq => by
    have hne : q ≠ p := fun heq => hp (heq ▸ hq)
    obtain ⟨hids, habandoned, hrecords, hstaging⟩ := h.pending q hq
    have hsame : (w.setStaging p rows).staging q = w.staging q := Function.update_of_ne hne _ _
    rw [hsame]
    exact ⟨hids, habandoned, hrecords, hstaging⟩⟩

theorem Kept.setAbandoned (h : w.Kept) (hp : ¬ w.Pending p) (rows : Multiset ρ) :
    (w.setAbandoned p rows).Kept :=
  ⟨h.nonneg, h.parts, h.ids, h.recorded, h.settled, fun q hq => by
    have hne : q ≠ p := fun heq => hp (heq ▸ hq)
    obtain ⟨hids, habandoned, hrest⟩ := h.pending q hq
    refine ⟨hids, ?_, hrest⟩
    exact (Function.update_of_ne hne _ _).trans habandoned⟩

/-- **An intent** records what the live table will hold. -/
theorem Kept.intend (h : w.Kept) (hp : ¬ w.Pending p) (hids : p ∈ w.ids)
    (habandoned : w.abandoned p = 0)
    (hrecords : Records (w.old p) w.nextBlock done (w.live p + w.staging p)) :
    (w.saveIntent p done).Kept := by
  have hother {q : PartitionId} (hne : q ≠ p) : (w.saveIntent p done).intent q = w.intent q :=
    Function.update_of_ne hne _ _
  have hself : (w.saveIntent p done).intent p = done := Function.update_self _ _ _
  refine ⟨h.nonneg, h.parts, h.ids, h.recorded, fun q hq => ?_, fun q hq => ?_⟩
  · rcases eq_or_ne q p with rfl | hne
    · exact h.settled q hp
    · rw [Pending, hother hne] at hq
      exact h.settled q hq
  · rcases eq_or_ne q p with rfl | hne
    · rw [hself]
      exact ⟨hids, habandoned, hrecords, .inr (h.settled q hp).eq⟩
    · rw [Pending, hother hne] at hq
      rw [hother hne]
      exact h.pending q hq

/-- **The staged rows** that an intent tells of are moved. -/
theorem Kept.move (h : w.Kept) (hp : w.Pending p) : (w.movePartition p).Kept := by
  refine ⟨h.nonneg, h.parts, h.ids, h.recorded, fun q hq => ?_, fun q hq => ?_⟩
  · have hne : q ≠ p := fun heq => hq (heq ▸ hp)
    have hlive : (w.movePartition p).live q = w.live q := Function.update_of_ne hne _ _
    rw [hlive]
    exact h.settled q hq
  · obtain ⟨hids, habandoned, hrecords, hstaging⟩ := h.pending q hq
    refine ⟨hids, habandoned, ?_⟩
    rcases eq_or_ne q p with rfl | hne
    · have hlive : (w.movePartition q).live q = w.live q + w.staging q :=
        Function.update_self _ _ _
      have hnone : (w.movePartition q).staging q = 0 := Function.update_self _ _ _
      rw [hlive, hnone, add_zero]
      exact ⟨hrecords, .inl rfl⟩
    · have hlive : (w.movePartition p).live q = w.live q := Function.update_of_ne hne _ _
      have hsame : (w.movePartition p).staging q = w.staging q := Function.update_of_ne hne _ _
      rw [hlive, hsame]
      exact ⟨hrecords, hstaging⟩

/-- The progress of the moved rows is saved. -/
theorem Kept.record (h : w.Kept) (hp : w.Pending p) (hstaging : w.staging p = 0) :
    (w.saveProgress p (w.intent p)).Kept := by
  obtain ⟨hids, habandoned, hrecords, -⟩ := h.pending p hp
  have hother {q : PartitionId} (hne : q ≠ p) :
      (w.saveProgress p (w.intent p)).progress q = w.progress q := Function.update_of_ne hne _ _
  refine ⟨h.nonneg, h.parts, h.ids, fun q => ?_, fun q hq => ?_, fun q hq => ?_⟩
  · rcases eq_or_ne q p with rfl | hne
    · change (Function.update w.progress q _ q).maxBlock < _
      rw [Function.update_self]
      exact hrecords.lt
    · rw [hother hne]
      exact h.recorded q
  · rw [hother fun heq => hq (heq ▸ hp)]
    exact h.settled q hq
  · rcases eq_or_ne q p with rfl | hne
    · exact ⟨hids, habandoned, hrecords, .inl hstaging⟩
    · rw [hother hne]
      exact h.pending q hq

/-- **An intent is cleared** whose progress is saved. -/
theorem Kept.clear (h : w.Kept) (hp : w.Pending p) (hprogress : w.progress p = w.intent p)
    (hstaging : w.staging p = 0) : (w.saveIntent p .none).Kept := by
  obtain ⟨-, -, hrecords, -⟩ := h.pending p hp
  have hother {q : PartitionId} (hne : q ≠ p) : (w.saveIntent p .none).intent q = w.intent q :=
    Function.update_of_ne hne _ _
  refine ⟨h.nonneg, h.parts, h.ids, h.recorded, fun q hq => ?_, fun q hq => ?_⟩
  · rcases eq_or_ne q p with rfl | hne
    · rw [hstaging, add_zero, ← hprogress] at hrecords
      exact hrecords
    · rw [Pending, hother hne] at hq
      exact h.settled q hq
  · rcases eq_or_ne q p with rfl | hne
    · have hself : (w.saveIntent q .none).intent q = .none := Function.update_self _ _ _
      rw [Pending, hself] at hq
      exact absurd hq (by decide)
    · rw [Pending, hother hne] at hq
      rw [hother hne]
      exact h.pending q hq

/-! ### The run -/

theorem Inv.not_dropped (h : w.Inv) {phase : DeltaPhase ρ} (hphase : w.phase = phase)
    (hne : phase ≠ .idle) : w.dropped ≠ true := fun hdropped =>
  hne (hphase.symm.trans (h.dropped hdropped).1)

/-- The run goes on. -/
theorem Inv.next (h : w.Inv) {phase phase' : DeltaPhase ρ} (hphase : w.phase = phase)
    (hne : phase ≠ .idle) (hkept : w'.Kept) (hinv : (w'.setPhase phase').PhaseInv phase')
    (hattention : w'.attention = w.attention) (hdropped : w'.dropped = w.dropped) :
    (w'.setPhase phase').Inv where
  kept := hkept.setPhase phase'
  phase := hinv
  attention := by
    change w'.attention ≠ _
    rw [hattention]
    exact h.attention
  dropped heq := absurd (hdropped.symm.trans heq) (h.not_dropped hphase hne)

theorem Inv.phase_eq (h : w.Inv) {phase : DeltaPhase ρ} (hphase : w.phase = phase) :
    w.PhaseInv phase := hphase ▸ h.phase

theorem Listed.insert (hlisted : w.Listed listing) (h : w.Kept) (p : PartitionId)
    (rows : Multiset ρ) : (w.inserted p rows).Listed listing := by
  intro q
  obtain ⟨late, hold, hlate⟩ := hlisted q
  change ∃ late, Function.update w.old p _ q = _ ∧ _
  rw [Function.update_apply]
  split_ifs with hq
  · subst hq
    refine ⟨late ++ [.ofInsert w.nextBlock rows], ?_, fun x hx => ?_⟩
    · rw [hold, List.append_assoc]
    · rcases List.mem_append.mp hx with hx | hx
      · exact hlate x hx
      · obtain rfl := List.mem_singleton.mp hx
        exact ⟨h.recorded q, hlisted.lastBlock_lt h q⟩
  · exact ⟨late, hold, hlate⟩

theorem RestInv.insert (hrest : w.RestInv hand rest) (h : w.Kept) (p : PartitionId)
    (rows : Multiset ρ) : (w.inserted p rows).RestInv hand rest := by
  cases rest with
  | finishing todo => exact hrest
  | copying listing todo => exact ⟨hrest.1.insert h p rows, hrest.2⟩

theorem Copying.insert (hcopying : w.Copying listing todo p) (h : w.Kept) (q : PartitionId)
    (rows : Multiset ρ) : (w.inserted q rows).Copying listing todo p :=
  ⟨RestInv.insert hcopying.1 h q rows, hcopying.2⟩

theorem Finishing.insert (hfinishing : w.Finishing rest p) (h : w.Kept) (q : PartitionId)
    (rows : Multiset ρ) : (w.inserted q rows).Finishing rest p :=
  ⟨RestInv.insert hfinishing.1 h q rows, hfinishing.2⟩

/-- Inserts do not disturb the run before the old table is verified. -/
theorem PhaseInv.insert {phase : DeltaPhase ρ} (hinv : w.PhaseInv phase) (h : w.Kept)
    (hphase : phase ≠ .verified) (p : PartitionId) (rows : Multiset ρ) :
    (w.inserted p rows).PhaseInv phase := by
  cases phase with
  | idle => trivial
  | rest rest => exact RestInv.insert hinv h p rows
  | found listing todo q => exact Copying.insert hinv h p rows
  | discarded listing todo q | killed listing todo q => exact ⟨hinv.1.insert h p rows, hinv.2⟩
  | staged listing todo q =>
    obtain ⟨hcopying, habandoned, hrows⟩ := hinv
    refine ⟨hcopying.insert h p rows, habandoned, hrows.trans ?_⟩
    exact (rowsUpTo_inserted (hcopying.1.1.lastBlock_lt h q) p q rows).symm
  | intended rest q n done | moved rest q done | recorded rest q =>
    exact ⟨hinv.1.insert h p rows, hinv.2⟩
  | copied listing =>
    have hrest : w.RestInv none (.copying listing []) := hinv
    exact hrest.insert h p rows
  | verified => exact absurd rfl hphase

/-- The tables after an abandoned insert has staged rows. -/
def abandonedStages (w : Delta ρ) [DecidableEq ρ] (p : PartitionId) (rows : Multiset ρ) : Delta ρ :=
  (w.setStaging p (w.staging p + rows)).setAbandoned p (w.abandoned p - rows)

/-- **An abandoned insert** stages rows of a partition that is not in hand. -/
theorem PhaseInv.abandoned [DecidableEq ρ] (hinv : w.PhaseInv w.phase) (h : w.Kept)
    (hguard : w.Undisturbed (.abandoned p rows)) (hle : rows ≤ w.abandoned p) (hrows : rows ≠ 0) :
    (w.abandonedStages p rows).PhaseInv w.phase := by
  have hpos : w.abandoned p ≠ 0 := fun heq => hrows (Multiset.le_zero.mp (heq ▸ hle))
  have hsame {q : PartitionId} (hne : q ≠ p) :
      (w.abandonedStages p rows).staging q = w.staging q := Function.update_of_ne hne _ _
  have hleft {q : PartitionId} (hne : q ≠ p) :
      (w.abandonedStages p rows).abandoned q = w.abandoned q := Function.update_of_ne hne _ _
  have hpending {q : PartitionId} (hq : w.Pending q) : q ≠ p := fun heq =>
    hpos (heq ▸ (h.pending q hq).2.1)
  unfold Undisturbed at hguard
  cases hphase : w.phase with
  | discarded listing todo q =>
    rw [hphase] at hinv hguard
    obtain ⟨hcopying, hstaging⟩ := hinv
    have hne : q ≠ p := fun heq => hrows (hguard heq)
    exact ⟨hcopying, (hsame hne).trans hstaging⟩
  | killed listing todo q =>
    rw [hphase] at hinv
    obtain ⟨hcopying, hstaging, habandoned⟩ := hinv
    have hne : q ≠ p := fun heq => hpos (heq ▸ habandoned)
    exact ⟨hcopying, (hsame hne).trans hstaging, (hleft hne).trans habandoned⟩
  | staged listing todo q =>
    rw [hphase] at hinv
    obtain ⟨hcopying, habandoned, hstaged⟩ := hinv
    have hne : q ≠ p := fun heq => hpos (heq ▸ habandoned)
    refine ⟨hcopying, (hleft hne).trans habandoned, ?_⟩
    rw [hsame hne]
    exact hstaged
  | intended rest q n done =>
    rw [hphase] at hinv
    obtain ⟨hfinishing, hdone, hn⟩ := hinv
    refine ⟨hfinishing, hdone, ?_⟩
    rw [hsame (hpending hfinishing.2.1)]
    exact hn
  | moved rest q done =>
    rw [hphase] at hinv
    obtain ⟨hfinishing, hdone, hstaging⟩ := hinv
    exact ⟨hfinishing, hdone, (hsame (hpending hfinishing.2.1)).trans hstaging⟩
  | recorded rest q =>
    rw [hphase] at hinv
    obtain ⟨hfinishing, hprogress, hstaging⟩ := hinv
    exact ⟨hfinishing, hprogress, (hsame (hpending hfinishing.2.1)).trans hstaging⟩
  | _ =>
    rw [hphase] at hinv
    exact hinv

/-- An abandoned insert stages some of the rows that it has not staged yet. -/
theorem Inv.abandon [DecidableEq ρ] (h : w.Inv) (hguard : w.Undisturbed (.abandoned p rows))
    (hle : rows ≤ w.abandoned p) : (w.abandonedStages p rows).Inv := by
  by_cases hrows : rows = 0
  · subst hrows
    have hsame : w.abandonedStages p 0 = w := by
      simp [abandonedStages, setStaging, setAbandoned]
    rw [hsame]
    exact h
  · have hp : ¬ w.Pending p := fun hp =>
      hrows (Multiset.le_zero.mp ((h.kept.pending p hp).2.1 ▸ hle))
    exact ⟨(h.kept.setStaging hp _).setAbandoned hp _,
      h.phase.abandoned h.kept hguard hle hrows, h.attention, h.dropped⟩

/-- The intent of a partition is looked at. -/
theorem Inv.resume (h : w.Inv) (hphase : w.phase = .rest (.finishing (p :: todo))) :
    (w.setPhase (if w.Pending p then
      .intended (.finishing todo) p (w.staging p).card (w.intent p)
        else .rest (.finishing todo))).Inv := by
  have hrest : ∀ q, w.Pending q → some q = none ∨ q ∈ p :: todo := h.phase_eq hphase
  refine h.next hphase nofun h.kept ?_ rfl rfl
  split_ifs with hp
  · refine ⟨⟨fun q hq => ?_, hp, trivial⟩, rfl, rfl⟩
    rcases List.mem_cons.mp ((hrest q hq).resolve_left nofun) with rfl | hq
    · exact .inl rfl
    · exact .inr hq
  · intro q hq
    rcases List.mem_cons.mp ((hrest q hq).resolve_left nofun) with rfl | hmem
    · exact absurd hq hp
    · exact .inr hmem

/-- The parts of the old table are listed once no intent is pending. -/
theorem Inv.list (h : w.Inv) (hphase : w.phase = .rest (.finishing [])) :
    (w.setPhase (.rest (.copying w.old
      ((w.ids.filter fun p => w.old p ≠ []).insertionSort (· ≤ ·))))).Inv := by
  have hrest : ∀ q, w.Pending q → some q = none ∨ q ∈ [] := h.phase_eq hphase
  refine h.next hphase nofun h.kept ⟨fun q => ?_, fun q hq => ?_, fun q hq => ?_⟩ rfl rfl
  · exact ⟨[], (List.append_nil _).symm, fun x hx => nomatch hx⟩
  · exact (hrest q hq).resolve_right List.not_mem_nil
  · refine .inr fun x hx => absurd ?_ hq
    have hne : w.old q ≠ [] := List.ne_nil_of_mem hx
    have hids : q ∈ w.ids := by
      by_contra hnot
      exact hne (h.kept.ids q hnot)
    rw [List.mem_insertionSort, List.mem_filter]
    exact ⟨hids, by simpa using hne⟩

/-- A partition without late parts has been copied. -/
theorem RestInv.skip (hrest : w.RestInv none (.copying listing (p :: todo)))
    (hp : ∀ q ∈ listing p, q.maxBlock ≤ (w.progress p).maxBlock) :
    w.RestInv none (.copying listing todo) := by
  obtain ⟨hlisted, hpending, hvisited⟩ := hrest
  refine ⟨hlisted, hpending, fun q hq => ?_⟩
  rcases eq_or_ne q p with rfl | hne
  · exact .inr hp
  · exact hvisited q fun hmem => (List.mem_cons.mp hmem).elim hne hq

/-- A partition with late parts is taken in hand. -/
theorem RestInv.take (hrest : w.RestInv none (.copying listing (p :: todo))) (h : w.Kept)
    (hnew : newParts (listing p) (w.progress p).maxBlock ≠ []) : w.Copying listing todo p := by
  obtain ⟨hlisted, hpending, hvisited⟩ := hrest
  have hnone (q : PartitionId) : ¬ w.Pending q := fun hq => nomatch hpending q hq
  refine ⟨⟨hlisted, fun q hq => absurd hq (hnone q), fun q hq => ?_⟩, hnone p, ?_⟩
  · rcases eq_or_ne q p with rfl | hne
    · exact .inl rfl
    · exact .inr ((hvisited q fun hmem =>
        (List.mem_cons.mp hmem).elim hne hq).resolve_left nofun)
  · obtain ⟨x, hx⟩ := List.exists_mem_of_ne_nil _ hnew
    have hx := (List.mem_filter.mp hx).1
    have hmin := (h.parts p x (hlisted.parts hx)).1
    exact (hmin.trans x.ordered).trans (le_lastBlock hx)

/-- The intent of the staged rows is recorded. -/
theorem Inv.intend (h : w.Inv) (hphase : w.phase = .staged listing todo p) :
    ((w.saveIntent p ⟨lastBlock (listing p), (w.progress p).rows + (w.staging p).card⟩).setPhase
      (.intended (.copying listing todo) p (w.staging p).card
        ⟨lastBlock (listing p), (w.progress p).rows + (w.staging p).card⟩)).Inv := by
  obtain ⟨⟨⟨hlisted, hpending, hvisited⟩, hp, hnonneg⟩, habandoned, hrows⟩ := h.phase_eq hphase
  have hids : p ∈ w.ids := by
    by_contra hnot
    obtain ⟨late, hold, -⟩ := hlisted p
    rw [h.kept.ids p hnot, eq_comm, List.append_eq_nil_iff] at hold
    rw [hold.1] at hnonneg
    exact absurd (show (0 : ℤ) ≤ -1 from hnonneg) (by decide)
  have hrecords : Records (w.old p) w.nextBlock
      ⟨lastBlock (listing p), (w.progress p).rows + (w.staging p).card⟩
      (w.live p + w.staging p) := by
    refine ⟨hlisted.lastBlock_lt h.kept p, fun q hq => ?_, hrows, ?_⟩
    · obtain ⟨late, hold, hlate⟩ := hlisted p
      rw [hold] at hq
      rcases List.mem_append.mp hq with hq | hq
      · exact .inl (le_lastBlock hq)
      · exact .inr (hlate q hq).2
    · rw [Multiset.card_add, (h.kept.settled p hp).card]
  have hself {done : Progress} : (w.saveIntent p done).intent p = done := Function.update_self _ _ _
  refine h.next hphase nofun (h.kept.intend hp hids habandoned hrecords)
    ⟨⟨⟨hlisted, fun q hq => ?_, hvisited⟩, ?_, ?_⟩, hself.symm, rfl⟩ rfl rfl
  · rcases eq_or_ne q p with rfl | hne
    · rfl
    · refine hpending q ?_
      change 0 ≤ (Function.update w.intent p _ q).maxBlock at hq
      rw [Function.update_of_ne hne] at hq
      exact hq
  · change 0 ≤ (Function.update w.intent p _ p).maxBlock
    rw [Function.update_self]
    exact hnonneg
  · change (Function.update w.intent p _ p).maxBlock = _
    rw [Function.update_self]

/-- The staged rows are moved, if there are any. -/
theorem Inv.move (h : w.Inv) {n : ℕ} (hphase : w.phase = .intended rest p n done) :
    ((if n = 0 then w else w.movePartition p).setPhase (.moved rest p done)).Inv := by
  obtain ⟨⟨hrest, hp, hreaches⟩, hdone, hn⟩ := h.phase_eq hphase
  split_ifs with hzero
  · exact h.next hphase nofun h.kept
      ⟨⟨hrest, hp, hreaches⟩, hdone, Multiset.card_eq_zero.mp (hn.symm.trans hzero)⟩ rfl rfl
  · refine h.next hphase nofun (h.kept.move hp) ⟨⟨?_, hp, hreaches⟩, hdone, ?_⟩ rfl rfl
    · cases rest with
      | finishing todo => exact hrest
      | copying listing todo => exact hrest
    · exact Function.update_self _ _ _

/-- The progress of the moved rows is saved. -/
theorem Inv.record (h : w.Inv) (hphase : w.phase = .moved rest p done) :
    ((w.saveProgress p done).setPhase (.recorded rest p)).Inv := by
  obtain ⟨⟨hrest, hp, hreaches⟩, rfl, hstaging⟩ := h.phase_eq hphase
  refine h.next hphase nofun (h.kept.record hp hstaging)
    ⟨⟨?_, hp, hreaches⟩, Function.update_self _ _ _, hstaging⟩ rfl rfl
  cases rest with
  | finishing todo => exact hrest
  | copying listing todo =>
    obtain ⟨hlisted, hpending, hvisited⟩ := hrest
    refine ⟨fun q => ?_, hpending, fun q hq => ?_⟩
    · obtain ⟨late, hold, hlate⟩ := hlisted q
      refine ⟨late, hold, fun x hx => ⟨?_, (hlate x hx).2⟩⟩
      change (Function.update w.progress p _ q).maxBlock < _
      rcases eq_or_ne q p with rfl | hne
      · rw [Function.update_self, show (w.intent q).maxBlock = lastBlock (listing q) from hreaches]
        exact (hlate x hx).2
      · rw [Function.update_of_ne hne]
        exact (hlate x hx).1
    · rcases eq_or_ne q p with rfl | hne
      · exact .inl rfl
      · change _ ∨ ∀ x ∈ listing q, x.maxBlock ≤ (Function.update w.progress p _ q).maxBlock
        rw [Function.update_of_ne hne]
        exact hvisited q hq

/-- The intent is cleared. -/
theorem Inv.clear (h : w.Inv) (hphase : w.phase = .recorded rest p) :
    ((w.saveIntent p .none).setPhase (.rest rest)).Inv := by
  obtain ⟨⟨hrest, hp, hreaches⟩, hprogress, hstaging⟩ := h.phase_eq hphase
  have hother {q : PartitionId} (hq : (w.saveIntent p .none).Pending q) : q ≠ p ∧ w.Pending q := by
    change 0 ≤ (Function.update w.intent p _ q).maxBlock at hq
    rcases eq_or_ne q p with rfl | hne
    · rw [Function.update_self] at hq
      exact absurd hq (by decide)
    · rw [Function.update_of_ne hne] at hq
      exact ⟨hne, hq⟩
  refine h.next hphase nofun (h.kept.clear hp hprogress hstaging) ?_ rfl rfl
  cases rest with
  | finishing todo =>
    intro q hq
    obtain ⟨hne, hq⟩ := hother hq
    exact .inr ((hrest q hq).resolve_left fun heq => hne (Option.some.inj heq))
  | copying listing todo =>
    obtain ⟨hlisted, hpending, hvisited⟩ := hrest
    refine ⟨hlisted, fun q hq => ?_, fun q hq => ?_⟩
    · obtain ⟨hne, hq⟩ := hother hq
      exact absurd (Option.some.inj (hpending q hq)) hne
    · rcases eq_or_ne q p with rfl | hne
      · refine .inr fun x hx => (le_lastBlock hx).trans_eq ?_
        exact (congrArg Progress.maxBlock hprogress).trans hreaches |>.symm
      · exact .inr ((hvisited q hq).resolve_left fun heq => hne (Option.some.inj heq))

/-- **The verified table** holds nothing that the live table has not. -/
theorem live_eq_of_verifyOld (h : w.Kept) (hrest : w.RestInv none (.copying listing []))
    (hverify : w.VerifyOld) (p : PartitionId) : w.live p = allRows (w.old p) := by
  have hrecords := h.settled p fun hp => nomatch hrest.2.1 p hp
  rw [hrecords.eq]
  by_cases hold : w.old p = []
  · rw [hold]
    rfl
  · have hids : p ∈ w.ids := by
      by_contra hnot
      exact hold (h.ids p hnot)
    have hnew := (hverify p hids hold).1
    rw [deltaPlan_fst fun q hq => (h.parts p q hq).1] at hnew
    exact rowsUpTo_eq_allRows (maxBlock_le_of_newParts_eq_nil hrecords.whole hnew)

/-- When a pass has ended, the live table holds the rows of the listed parts. -/
theorem live_eq_of_copied (h : w.Kept) (hrest : w.RestInv none (.copying listing []))
    (p : PartitionId) : w.live p = allRows (listing p) := by
  obtain ⟨hlisted, hpending, hvisited⟩ := hrest
  have hrecords := h.settled p fun hp => nomatch hpending p hp
  have hreached := (hvisited p List.not_mem_nil).resolve_left nofun
  obtain ⟨late, hold, hlate⟩ := hlisted p
  rw [hrecords.eq, hold, rowsUpTo_append, rowsUpTo_of_forall_lt fun q hq => (hlate q hq).1,
    add_zero]
  exact rowsUpTo_eq_allRows hreached

/-- Where nothing has been inserted since, the old table is verified. -/
theorem verifyOld_of_copied (h : w.Kept) (hrest : w.RestInv none (.copying w.old [])) :
    w.VerifyOld := by
  intro p _ _
  have hrecords := h.settled p fun hp => nomatch hrest.2.1 p hp
  have hreached := (hrest.2.2 p List.not_mem_nil).resolve_left nofun
  refine ⟨?_, deltaPlan_snd hrecords.whole, ?_⟩
  · rw [deltaPlan_fst fun q hq => (h.parts p q hq).1]
    exact List.filter_eq_nil_iff.mpr fun q hq => by
      simpa using q.ordered.trans (hreached q hq)
  · rw [← hrecords.card, live_eq_of_copied h hrest p]

/-- **One event** keeps the invariant. -/
theorem Inv.step [DecidableEq ρ] (h : w.Inv) {e : DeltaEvent ρ} (hguard : w.Undisturbed e)
    (hstep : w.step e = some w') : w'.Inv := by
  cases e with
  | insert p rows =>
    simp only [Delta.step] at hstep
    split at hstep <;> try contradiction
    next hphase =>
      obtain ⟨hdropped, rfl⟩ := made_of_guard_not hstep
      exact ⟨h.kept.insert p rows, h.phase.insert h.kept hphase p rows, h.attention,
        fun hd => absurd hd hdropped⟩
  | abandoned p rows =>
    obtain ⟨hle, rfl⟩ := made_of_guard hstep
    exact h.abandon hguard hle
  | start =>
    obtain ⟨⟨-, hdropped⟩, heq⟩ := Option.ite_none_right_eq_some.mp hstep
    have hstart : (w.setPhase (.rest (.finishing w.ids))).Inv :=
      ⟨h.kept.setPhase _, fun p hp => .inr (h.kept.pending p hp).1, h.attention,
        fun hd => absurd (hdropped.symm.trans hd) nofun⟩
    split at heq <;> try contradiction
    · obtain rfl := Option.some.inj heq
      exact hstart
    · obtain rfl := Option.some.inj heq
      exact hstart
  | resume =>
    simp only [Delta.step] at hstep
    split at hstep <;> try contradiction
    next hphase =>
      obtain rfl := Option.some.inj hstep
      exact h.resume hphase
  | list =>
    simp only [Delta.step] at hstep
    split at hstep <;> try contradiction
    next hphase =>
      obtain rfl := Option.some.inj hstep
      exact h.list hphase
  | visit =>
    simp only [Delta.step] at hstep
    split at hstep <;> try contradiction
    next listing p todo hphase =>
      have hrest : w.RestInv none (.copying listing (p :: todo)) := h.phase_eq hphase
      have hp : ¬ w.Pending p := fun hp => nomatch hrest.2.1 p hp
      have hnew : (deltaPlan (listing p) (w.progress p)).1 =
          newParts (listing p) (w.progress p).maxBlock :=
        deltaPlan_fst fun q hq => (h.kept.parts p q (hrest.1.parts hq)).1
      split at hstep
      · next heq =>
        have hwhole := hrest.1.deltaPlan_snd h.kept hp
        rw [heq] at hwhole
        cases hwhole
      · next heq =>
        obtain rfl := Option.some.inj hstep
        rw [heq] at hnew
        refine h.next hphase nofun h.kept (hrest.skip ?_) rfl rfl
        exact maxBlock_le_of_newParts_eq_nil
          (fun q hq => (h.kept.settled p hp).whole q (hrest.1.parts hq)) hnew.symm
      · next heq =>
        obtain rfl := Option.some.inj hstep
        rw [heq] at hnew
        exact h.next hphase nofun h.kept
          (hrest.take h.kept (by rw [← hnew]; exact List.cons_ne_nil _ _)) rfl rfl
  | discard =>
    simp only [Delta.step] at hstep
    split at hstep <;> try contradiction
    next listing todo p hphase =>
      obtain rfl := Option.some.inj hstep
      have hcopying : w.Copying listing todo p := h.phase_eq hphase
      exact h.next hphase nofun (h.kept.setStaging hcopying.2.1 0)
        ⟨hcopying, Function.update_self _ _ _⟩ rfl rfl
  | kill =>
    simp only [Delta.step] at hstep
    split at hstep <;> try contradiction
    next listing todo p hphase =>
      obtain rfl := Option.some.inj hstep
      obtain ⟨hcopying, hstaging⟩ := h.phase_eq hphase
      exact h.next hphase nofun (h.kept.setAbandoned hcopying.2.1 0)
        ⟨hcopying, hstaging, Function.update_self _ _ _⟩ rfl rfl
  | stage =>
    simp only [Delta.step] at hstep
    split at hstep <;> try contradiction
    next listing todo p hphase =>
      obtain rfl := Option.some.inj hstep
      obtain ⟨hcopying, hstaging, habandoned⟩ := h.phase_eq hphase
      refine h.next hphase nofun (h.kept.setStaging hcopying.2.1 _)
        ⟨hcopying, habandoned, ?_⟩ rfl rfl
      change w.live p + Function.update w.staging p _ p = _
      rw [Function.update_self, hstaging, zero_add]
      exact add_lateRows h.kept hcopying.1.1 hcopying.2.1
  | intend =>
    simp only [Delta.step] at hstep
    split at hstep <;> try contradiction
    next hphase =>
      obtain rfl := Option.some.inj hstep
      exact h.intend hphase
  | move =>
    simp only [Delta.step] at hstep
    split at hstep <;> try contradiction
    next hphase =>
      obtain rfl := Option.some.inj hstep
      exact h.move hphase
  | record =>
    simp only [Delta.step] at hstep
    split at hstep <;> try contradiction
    next hphase =>
      obtain rfl := Option.some.inj hstep
      exact h.record hphase
  | clear =>
    simp only [Delta.step] at hstep
    split at hstep <;> try contradiction
    next hphase =>
      obtain rfl := Option.some.inj hstep
      exact h.clear hphase
  | finish =>
    simp only [Delta.step] at hstep
    split at hstep <;> try contradiction
    next listing hphase =>
      obtain rfl := Option.some.inj hstep
      have hrest : w.RestInv none (.copying listing []) := h.phase_eq hphase
      exact h.next hphase nofun h.kept hrest rfl rfl
  | verify =>
    simp only [Delta.step] at hstep
    split at hstep <;> try contradiction
    next listing hphase =>
      split_ifs at hstep with hverify
      · obtain rfl := Option.some.inj hstep
        have hrest : w.RestInv none (.copying listing []) := h.phase_eq hphase
        have hlive := live_eq_of_verifyOld h.kept hrest hverify
        exact h.next hphase nofun h.kept hlive rfl rfl
      · obtain rfl := Option.some.inj hstep
        exact ⟨h.kept.ended _ _ _, trivial, nofun, fun hd => absurd hd (h.not_dropped hphase nofun)⟩
  | setDone =>
    simp only [Delta.step] at hstep
    split at hstep <;> try contradiction
    next hphase =>
      obtain ⟨-, rfl⟩ := made_of_guard_not hstep
      exact ⟨h.kept.ended _ _ _, trivial, h.attention,
        fun hd => absurd hd (h.not_dropped hphase nofun)⟩
  | dropOld =>
    simp only [Delta.step] at hstep
    split at hstep <;> try contradiction
    next hphase =>
      obtain ⟨-, rfl⟩ := made_of_guard hstep
      exact ⟨h.kept.ended _ _ _, trivial, h.attention, fun _ => ⟨rfl, h.phase_eq hphase⟩⟩
  | stop written =>
    simp only [Delta.step] at hstep
    split at hstep <;> try contradiction
    · next listing todo p hphase =>
      obtain ⟨-, rfl⟩ := made_of_guard hstep
      have hp : ¬ w.Pending p := (h.phase_eq hphase).1.2.1
      exact h.next hphase nofun ((h.kept.setStaging hp _).setAbandoned hp _) trivial rfl rfl
    · next hidle _ =>
      obtain rfl := Option.some.inj hstep
      exact h.next rfl hidle h.kept trivial rfl rfl

/-- **The delta copy is exactly once.** After the exchange, however often runs stop, the live table
holds of every partition the rows of the blocks up to some block, each once. When a pass has ended
these are the rows that had been inserted when it listed the parts, and the old table is verified
unless rows have been inserted since. It is dropped only when all of its rows are in the live table.
No part mixes copied rows with later ones. -/
theorem copied_once [DecidableEq ρ] {d : Delta ρ} (hd : d.Exchanged) {l : List (DeltaEvent ρ)}
    (hrun : Run (Guarded Undisturbed Step) d l w) :
    (∀ p, ∃ b, w.live p = rowsUpTo (w.old p) b) ∧
      (∀ listing, w.phase = .copied listing →
        (∀ p, w.live p = allRows (listing p) ∧ ∃ late, w.old p = listing p ++ late) ∧
          (w.old = listing → w.VerifyOld)) ∧
      (w.dropped = true → ∀ p, w.live p = allRows (w.old p)) ∧ w.attention ≠ some .mixed := by
  have h : w.Inv := hrun.invariant (fun _ _ _ h hstep => h.step hstep.1 hstep.2) hd.inv
  refine ⟨fun p => ?_, fun listing hphase => ?_, fun hdropped => (h.dropped hdropped).2,
    h.attention⟩
  · by_cases hp : w.Pending p
    · obtain ⟨-, -, hrecords, hstaging | hlive⟩ := h.kept.pending p hp
      · have hrows := hrecords.eq
        rw [hstaging, add_zero] at hrows
        exact ⟨_, hrows⟩
      · exact ⟨_, hlive⟩
    · exact ⟨_, (h.kept.settled p hp).eq⟩
  · have hrest : w.RestInv none (.copying listing []) := h.phase_eq hphase
    refine ⟨fun p => ⟨live_eq_of_copied h.kept hrest p, ?_⟩, fun hold => ?_⟩
    · obtain ⟨late, hold, -⟩ := hrest.1 p
      exact ⟨late, hold⟩
    · exact verifyOld_of_copied h.kept (hold ▸ hrest)

end Steps

/-! ### Samples -/

instance [DecidableEq ρ] (w : Delta ρ) (e : DeltaEvent ρ) : Decidable (w.Undisturbed e) := by
  unfold Undisturbed
  split
  · split <;> infer_instance
  · infer_instance

/-- A table with one row, which is copied. -/
def sampleTables : Delta Char where
  ids := ["202601"]
  old p := if p = "202601" then [.ofInsert 1 {'a'}] else []
  nextBlock := 2
  live p := if p = "202601" then {'a'} else 0
  staging _ := 0
  abandoned _ := 0
  progress p := if p = "202601" then ⟨1, 1⟩ else .none
  intent _ := .none
  phase := .idle
  deltaDone := false
  attention := none
  dropped := false

theorem exchanged_sampleTables : sampleTables.Exchanged where
  phase := rfl
  attention := rfl
  dropped := rfl
  nonneg := by decide
  parts p q hq := by
    change q ∈ if p = "202601" then [DataPart.ofInsert 1 {'a'}] else [] at hq
    split_ifs at hq
    · obtain rfl := List.mem_singleton.mp hq
      exact ⟨by decide, by decide⟩
    · cases hq
  ids p hp := if_neg fun heq => hp (List.mem_singleton.mpr heq)
  intent _ := rfl
  records p := by
    change Records (if p = "202601" then [DataPart.ofInsert 1 {'a'}] else []) 2
      (if p = "202601" then ⟨1, 1⟩ else .none) (if p = "202601" then {'a'} else 0)
    split_ifs
    · refine ⟨by decide, fun q hq => ?_, by decide, rfl⟩
      obtain rfl := List.mem_singleton.mp hq
      exact .inl le_rfl
    · exact ⟨by decide, fun q hq => (nomatch hq), rfl, rfl⟩

/-- A late row is found. -/
def sampleFound : List (DeltaEvent Char) := [.start, .resume, .list, .visit, .discard]

/-- A pass in which nothing is found, and the verification. -/
def sampleVerified : List (DeltaEvent Char) := [.start, .resume, .list, .visit, .finish, .verify]

/-- A late row is copied by a run that stops twice, and the old table is dropped in the end. -/
def sampleDropped : List (DeltaEvent Char) :=
  .insert "202601" {'b'} :: (sampleFound ++ [.kill, .stop 0, .abandoned "202601" {'b'}] ++
    sampleFound ++ [.kill, .stage, .intend, .stop 0, .start, .resume, .move, .record, .clear,
      .stop 0] ++ sampleVerified ++ [.setDone] ++ sampleVerified ++ [.dropOld])

theorem copied_once_sampleDropped : ∃ w : Delta Char,
    Run (Guarded Undisturbed Step) sampleTables sampleDropped w ∧ w.dropped = true ∧
      w.live "202601" = {'a', 'b'} ∧ ∀ p, w.live p = allRows (w.old p) := by
  have hview : (sampleDropped.foldlM
      (fun (w : Delta Char) e => if w.Undisturbed e then w.step e else none) sampleTables).map
        (fun w => (w.dropped, w.live "202601")) = some (true, {'a', 'b'}) := by
    decide +kernel
  obtain ⟨w, hw, heq⟩ := Option.map_eq_some_iff.mp hview
  have hrun := Run.guarded_of_foldlM hw
  obtain ⟨hdropped, hlive⟩ := Prod.mk.inj heq
  exact ⟨w, hrun, hdropped, hlive, (copied_once exchanged_sampleTables hrun).2.2.1 hdropped⟩

/-- The run stops in its insert, which stages the row after the next run has discarded its leftovers
and before it is killed. -/
def sampleDisturbed : List (DeltaEvent Char) :=
  .insert "202601" {'b'} :: (sampleFound ++ [.kill, .stop 0] ++ sampleFound ++
    [.abandoned "202601" {'b'}, .kill, .stage, .intend, .move])

/-- The live table has a row twice. -/
theorem row_copied_twice :
    ¬∀ (ρ : Type) (_ : DecidableEq ρ) (d : Delta ρ), d.Exchanged →
      ∀ (l : List (DeltaEvent ρ)) (w : Delta ρ), Run Step d l w →
        ∀ p, ∃ b, w.live p = rowsUpTo (w.old p) b := by
  intro hall
  have hview : (sampleDisturbed.foldlM (fun (w : Delta Char) e => w.step e) sampleTables).map
      (fun w => ((w.live "202601").card, (allRows (w.old "202601")).card)) = some (3, 2) := by
    decide +kernel
  obtain ⟨w, hw, heq⟩ := Option.map_eq_some_iff.mp hview
  obtain ⟨hlive, hold⟩ := Prod.mk.inj heq
  obtain ⟨b, hb⟩ := hall Char _ _ exchanged_sampleTables _ w (Run.of_foldlM hw) "202601"
  have hle := Multiset.card_le_card (rowsUpTo_le_allRows (w.old "202601") b)
  rw [← hb, hlive, hold] at hle
  exact absurd hle (by decide)

end Delta

/-! ### What a rebuild exchanges -/

/-- **A rebuild leaves** what the delta copy begins with, where the plan finds the partitions whole
and counted. -/
theorem Rebuild.exchanged_exchangedTables [DecidableEq ρ] {w : Rebuild ρ}
    {l : List (RebuildEvent ρ)} (hrun : Run (Guarded Rebuild.Careful Rebuild.Step) Rebuild.init l w)
    (he : w.exchanged = true)
    (hwhole : ∀ p, ∀ q ∈ w.source p, q.maxBlock ≤ w.recorded p ∨ w.recorded p < q.minBlock)
    (hcard : ∀ p prog, w.progress p = some prog → (w.work p).card = prog.rows) :
    w.exchangedTables.Exchanged := by
  have h : w.Inv := hrun.invariant (fun _ _ _ h hstep => h.step hstep.1 hstep.2) Rebuild.inv_init
  have hrecorded (p : PartitionId) : (w.exchangedTables.progress p).maxBlock = w.recorded p := by
    unfold Rebuild.recorded
    change ((w.progress p).getD .none).maxBlock = _
    cases w.progress p <;> rfl
  refine ⟨rfl, rfl, rfl, h.nonneg, h.parts, fun p hp => (h.ids p hp).1, fun _ => rfl, fun p => ?_⟩
  have hexact : w.work p = rowsUpTo (w.source p) (w.recorded p) := (h.exchanged he).2 p
  refine ⟨?_, ?_, ?_, ?_⟩
  · rw [hrecorded]
    exact h.recorded_lt p
  · rw [hrecorded]
    exact hwhole p
  · rw [hrecorded]
    exact hexact
  · change (w.work p).card = ((w.progress p).getD .none).rows
    cases hprog : w.progress p with
    | some prog => exact hcard p prog hprog
    | none =>
      rw [Rebuild.recorded, hprog] at hexact
      rw [hexact, rowsUpTo_of_forall_lt fun q hq => lt_of_lt_of_le (by decide) (h.parts p q hq).1]
      rfl

end Nodeglow.ClickHouse
