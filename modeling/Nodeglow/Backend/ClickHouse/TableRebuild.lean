import Mathlib.Data.List.Sort
import Mathlib.Data.String.Basic
import Nodeglow.Foundation.MergeTree
import Nodeglow.Foundation.Run

/-!
# The rebuild of a table

A table is rebuilt by copying it, partition by partition, into a work table. Of each partition the
rebuild records the last block that it has copied and the number of the rows in the copy. Before it
changes a partition it compares these with the parts of the source and with two counts: the rows
that the source has in the recorded blocks, and the rows of the copy. Either nothing is to be done,
or the parts after the recorded block are appended, or the partition is dropped and copied again.

Meanwhile rows are inserted into the source and its parts are merged, and a run may stop at any
point, also in a copy of which some rows are written. The server goes on with an insert that is
abandoned so, until a later run kills it, which comes right before that run's own insert: the rows
that it has yet to write may still come to the work table. A run loads its progress once, and nobody
else writes it, so that what it has loaded is what is stored.

## Main results

* `of_plan_ne_full` — what a partition has passed that is not copied again.

Source: `backend/services/clickhouse_rebuild.py`, lines 99–119, 275–411, 541–582 and 657–706.
-/

namespace Nodeglow.ClickHouse

open MergeTree

variable {ρ : Type}

abbrev PartitionId := String

/-- `Progress`. -/
structure Progress where
  maxBlock : ℤ
  rows : ℕ
  deriving DecidableEq, Repr

/-- The default values of `Progress`. -/
def Progress.none : Progress := ⟨-1, 0⟩

inductive Action
  | full
  | append
  | inSync
  deriving DecidableEq, Repr

/-- The parts after a block. -/
def newParts (parts : List (DataPart ρ)) (b : ℤ) : List (DataPart ρ) :=
  parts.filter fun q => b < q.minBlock

/-- The parts up to a block. -/
def oldParts (parts : List (DataPart ρ)) (b : ℤ) : List (DataPart ρ) :=
  parts.filter fun q => q.maxBlock ≤ b

/-- `plan`. -/
def plan (parts : List (DataPart ρ)) (prog : Option Progress) (srcOldRows dstRows : Option ℕ) :
    Action :=
  match prog with
  | none => if parts = [] then .inSync else .full
  | some prog =>
      if prog.maxBlock < 0 then if parts = [] then .inSync else .full
      else if (newParts parts prog.maxBlock).length + (oldParts parts prog.maxBlock).length ≠
          parts.length then .full
      else if dstRows.any (· ≠ prog.rows) then .full
      else if srcOldRows.getD 0 ≠ prog.rows then .full
      else if newParts parts prog.maxBlock ≠ [] then .append
      else .inSync

/-- Where as many parts are old or new as there are, every part is old or new. -/
theorem forall_of_length_eq {parts : List (DataPart ρ)} {b : ℤ}
    (h : (newParts parts b).length + (oldParts parts b).length = parts.length) :
    ∀ q ∈ parts, q.maxBlock ≤ b ∨ b < q.minBlock := by
  have hle (l : List (DataPart ρ)) : (newParts l b).length + (oldParts l b).length ≤ l.length := by
    induction l with
    | nil => exact le_rfl
    | cons q l ih =>
      have hq := q.ordered
      simp only [newParts, oldParts, List.filter_cons, decide_eq_true_eq] at ih ⊢
      split_ifs <;> simp only [List.length_cons] <;> omega
  induction parts with
  | nil => exact fun q hq => nomatch hq
  | cons q parts ih =>
    have hq := q.ordered
    have hrest := hle parts
    simp only [newParts, oldParts, List.filter_cons, decide_eq_true_eq] at h hrest ih
    refine List.forall_mem_cons.mpr ⟨?_, ih ?_⟩
    · by_contra hnot
      obtain ⟨hold, hnew⟩ := not_or.mp hnot
      rw [if_neg hold, if_neg hnew, List.length_cons] at h
      omega
    · split_ifs at h <;> simp only [List.length_cons] at h <;> omega

/-- What a partition that is in sync, or that is appended to, has passed. -/
theorem of_plan_ne_full {parts : List (DataPart ρ)} {prog : Option Progress}
    {srcOldRows dstRows : Option ℕ} (hparts : parts ≠ [])
    (h : plan parts prog srcOldRows dstRows ≠ .full) :
    ∃ prog', prog = some prog' ∧ 0 ≤ prog'.maxBlock ∧
      (∀ q ∈ parts, q.maxBlock ≤ prog'.maxBlock ∨ prog'.maxBlock < q.minBlock) ∧
      (∀ n, dstRows = some n → n = prog'.rows) ∧ srcOldRows.getD 0 = prog'.rows := by
  unfold plan at h
  split at h
  · rw [if_neg hparts] at h
    exact absurd rfl h
  · next prog' =>
    split_ifs at h with hblock hlength hdst hsrc
    all_goals first | exact absurd rfl h | skip
    all_goals
      refine ⟨prog', rfl, not_lt.mp hblock, forall_of_length_eq (not_not.mp hlength), ?_,
        not_not.mp hsrc⟩
      rintro n rfl
      simpa using hdst

/-- The last block of some parts. -/
def lastBlock (parts : List (DataPart ρ)) : ℤ := (parts.map DataPart.maxBlock).foldr max (-1)

theorem le_lastBlock {parts : List (DataPart ρ)} {q : DataPart ρ} (h : q ∈ parts) :
    q.maxBlock ≤ lastBlock parts := by
  induction parts with
  | nil => cases h
  | cons p parts ih =>
    rcases List.mem_cons.mp h with rfl | h
    · exact le_max_left _ _
    · exact (ih h).trans (le_max_right _ _)

theorem lastBlock_lt {parts : List (DataPart ρ)} {bound : ℤ} (hbound : 0 ≤ bound)
    (h : ∀ q ∈ parts, q.maxBlock < bound) : lastBlock parts < bound := by
  induction parts with
  | nil => exact (show (-1 : ℤ) < 0 by decide).trans_le hbound
  | cons p parts ih =>
    obtain ⟨hp, hparts⟩ := List.forall_mem_cons.mp h
    exact max_lt hp (ih hparts)

/-- Something is appended only where there are parts to append. -/
theorem newParts_ne_nil_of_plan {parts : List (DataPart ρ)} {prog : Progress}
    {srcOldRows dstRows : Option ℕ} (h : plan parts (some prog) srcOldRows dstRows = .append) :
    newParts parts prog.maxBlock ≠ [] := by
  simp only [plan] at h
  split_ifs at h with _ _ _ _ _ hnew
  exact hnew

/-! ### The run -/

/-- A pass over the partitions, with the parts as they were listed, and those still to visit. -/
structure Pass (ρ : Type) where
  /-- `_ready_for_exchange`; otherwise `_sync_all`. -/
  check : Bool
  listing : PartitionId → List (DataPart ρ)
  todo : List PartitionId

/-- Where the run is. -/
inductive RebuildPhase (ρ : Type)
  | idle
  | visiting (pass : Pass ρ)
  /-- The rows of the recorded blocks of a partition are counted. -/
  | counted (pass : Pass ρ) (p : PartitionId) (srcOld : Option ℕ)
  /-- A partition is to be copied again. -/
  | full (pass : Pass ρ) (p : PartitionId)
  /-- An abandoned insert is killed next. -/
  | copying (action : Action) (pass : Pass ρ) (p : PartitionId) (names : List PartName)
      (maxBlock : ℤ)
  /-- The parts of the given names are inserted next. -/
  | killed (action : Action) (pass : Pass ρ) (p : PartitionId) (names : List PartName)
      (maxBlock : ℤ)
  /-- They are inserted; the progress is saved next. -/
  | written (action : Action) (pass : Pass ρ) (p : PartitionId) (maxBlock : ℤ)
  /-- A partition is dropped that the source has no longer. -/
  | gone (pass : Pass ρ) (p : PartitionId)
  | ready

/-- The run copies the partition again, and has not saved its progress. -/
def RebuildPhase.Rewrites (p : PartitionId) : RebuildPhase ρ → Prop
  | .copying .full _ q _ _ | .killed .full _ q _ _ | .written .full _ q _ => q = p
  | _ => False

/-- A table, its work table, the progress, and the run. -/
structure Rebuild (ρ : Type) where
  /-- The partitions with inserted rows. -/
  ids : List PartitionId
  source : PartitionId → List (DataPart ρ)
  nextBlock : ℤ
  work : PartitionId → Multiset ρ
  /-- The rows that an abandoned insert has yet to write. -/
  abandoned : PartitionId → Multiset ρ
  progress : PartitionId → Option Progress
  phase : RebuildPhase ρ
  exchanged : Bool

inductive RebuildEvent (ρ : Type)
  | insert (p : PartitionId) (rows : Multiset ρ)
  | merge (p : PartitionId) (i n : ℕ)
  /-- An abandoned insert writes rows. -/
  | abandoned (p : PartitionId) (rows : Multiset ρ)
  /-- A pass begins. -/
  | list (check : Bool)
  | countSource
  | plan
  | drop
  | kill
  | copy
  | save
  | gone (p : PartitionId)
  | finish
  | exchange
  /-- The run stops, by a crash or because it refuses to go on. Of a copy, some rows are written, and
  the others may be later. -/
  | stop (written : Multiset ρ)

namespace Rebuild

section Model

variable (w : Rebuild ρ)

def setPhase (phase : RebuildPhase ρ) : Rebuild ρ := { w with phase := phase }

def setWork (p : PartitionId) (rows : Multiset ρ) : Rebuild ρ :=
  { w with work := Function.update w.work p rows }

def setAbandoned (p : PartitionId) (rows : Multiset ρ) : Rebuild ρ :=
  { w with abandoned := Function.update w.abandoned p rows }

/-- `_save_progress`. -/
def saveProgress (p : PartitionId) (prog : Progress) : Rebuild ρ :=
  { w with progress := Function.update w.progress p (some prog) }

def setSource (p : PartitionId) (parts : List (DataPart ρ)) : Rebuild ρ :=
  { w with source := Function.update w.source p parts }

/-- The recorded block of a partition. -/
def recorded (p : PartitionId) : ℤ := ((w.progress p).map Progress.maxBlock).getD (-1)

/-- The names of the listed parts of the recorded blocks. -/
def oldNames (pass : Pass ρ) (p : PartitionId) (prog : Progress) : List PartName :=
  (oldParts (pass.listing p) prog.maxBlock).map DataPart.name

/-- The count of the rows of the recorded blocks, by the names of the parts. -/
def countOld (pass : Pass ρ) (p : PartitionId) (prog : Progress) : ℕ :=
  (rowsNamed (w.source p) (oldNames pass p prog)).card

/-- What `plan` says of a partition whose recorded rows are counted. -/
def planned (pass : Pass ρ) (p : PartitionId) (srcOld : Option ℕ) : Action :=
  plan (pass.listing p) (w.progress p) srcOld ((w.progress p).map fun _ => (w.work p).card)

/-- The partitions of the work table that the source had not when its parts were listed. -/
def isGone (listing : PartitionId → List (DataPart ρ)) (p : PartitionId) : Prop :=
  (w.work p).card ≠ 0 ∧ listing p = []

instance (listing : PartitionId → List (DataPart ρ)) (p : PartitionId) :
    Decidable (w.isGone listing p) :=
  inferInstanceAs (Decidable (_ ∧ _))

/-- One event; it has no value where the event cannot happen. -/
def step [DecidableEq ρ] : RebuildEvent ρ → Option (Rebuild ρ)
  | .insert p rows => some { w.setSource p (w.source p ++ [.ofInsert w.nextBlock rows]) with
      ids := if p ∈ w.ids then w.ids else p :: w.ids
      nextBlock := w.nextBlock + 1 }
  | .merge p i n => some (w.setSource p (mergeAt (w.source p) i n))
  | .abandoned p rows =>
      if rows ≤ w.abandoned p then
        some ((w.setWork p (w.work p + rows)).setAbandoned p (w.abandoned p - rows))
      else none
  | .list check =>
      match w.phase with
      | .idle =>
          if w.exchanged then none
          else if check ∧ ∃ p ∈ w.ids, w.isGone w.source p then some w
          else some (w.setPhase (.visiting
            ⟨check, w.source, (w.ids.filter fun p => w.source p ≠ []).insertionSort (· ≤ ·)⟩))
      | _ => none
  | .countSource =>
      match w.phase with
      | .visiting ⟨check, listing, p :: todo⟩ =>
          if check ∧ w.progress p = none then some (w.setPhase .idle)
          else some (w.setPhase (.counted ⟨check, listing, todo⟩ p
            ((w.progress p).map (w.countOld ⟨check, listing, todo⟩ p))))
      | _ => none
  | .plan =>
      match w.phase with
      | .counted pass p srcOld =>
          match w.planned pass p srcOld with
          | .full => some (w.setPhase (if pass.check then .idle else .full pass p))
          | .append =>
              let parts := newParts (pass.listing p) (w.recorded p)
              some (w.setPhase (if pass.check then .visiting pass
                else .copying .append pass p (parts.map DataPart.name) (lastBlock parts)))
          | .inSync => some (w.setPhase (.visiting pass))
      | _ => none
  | .drop =>
      match w.phase with
      | .full pass p => some ((w.setWork p 0).setPhase (.copying .full pass p
          ((pass.listing p).map DataPart.name) (lastBlock (pass.listing p))))
      | _ => none
  | .kill =>
      match w.phase with
      | .copying action pass p names maxBlock =>
          some ((w.setAbandoned p 0).setPhase (.killed action pass p names maxBlock))
      | _ => none
  | .copy =>
      match w.phase with
      | .killed action pass p names maxBlock =>
          some ((w.setWork p (w.work p + rowsNamed (w.source p) names)).setPhase
            (.written action pass p maxBlock))
      | _ => none
  | .save =>
      match w.phase with
      | .written _ pass p maxBlock =>
          some ((w.saveProgress p ⟨maxBlock, (w.work p).card⟩).setPhase (.visiting pass))
      | .gone pass p => some ((w.saveProgress p .none).setPhase (.visiting pass))
      | _ => none
  | .gone p =>
      match w.phase with
      | .visiting ⟨false, listing, []⟩ =>
          if p ∈ w.ids ∧ w.isGone listing p then
            some ((w.setWork p 0).setPhase (.gone ⟨false, listing, []⟩ p))
          else none
      | _ => none
  | .finish =>
      match w.phase with
      | .visiting ⟨true, _, []⟩ => some (w.setPhase .ready)
      | .visiting ⟨false, listing, []⟩ =>
          if ∃ p ∈ w.ids, w.isGone listing p then none else some (w.setPhase .idle)
      | _ => none
  | .exchange =>
      match w.phase with
      | .ready => some { w.setPhase .idle with exchanged := true }
      | _ => none
  | .stop written =>
      match w.phase with
      | .idle => none
      | .killed _ _ p names _ =>
          if written ≤ rowsNamed (w.source p) names then
            some (((w.setWork p (w.work p + written)).setAbandoned p
              (rowsNamed (w.source p) names - written)).setPhase .idle)
          else none
      | _ => some (w.setPhase .idle)

/-- The transition relation of `Rebuild.step`. -/
def Step [DecidableEq ρ] (w : Rebuild ρ) (e : RebuildEvent ρ) (w' : Rebuild ρ) : Prop :=
  w.step e = some w'

/-- An empty table. -/
def init : Rebuild ρ where
  ids := []
  source _ := []
  nextBlock := 1
  work _ := 0
  abandoned _ := 0
  progress _ := none
  phase := .idle
  exchanged := false

/-- The copy of a partition holds exactly the rows of the recorded blocks. -/
def Exact (p : PartitionId) : Prop := w.work p = rowsUpTo (w.source p) (w.recorded p)

/-- The counts tell whether the copy of a partition would hold the rows of the recorded blocks. -/
def Tells (p : PartitionId) (rows : Multiset ρ) : Prop :=
  ∀ prog, w.progress p = some prog → 0 ≤ prog.maxBlock → rows.card = prog.rows →
    (rowsUpTo (w.source p) prog.maxBlock).card = prog.rows →
      rows = rowsUpTo (w.source p) prog.maxBlock

/-- The copy of a partition is as it is when the insert of a copy begins, if no abandoned insert
writes to it: empty, or the recorded rows. -/
def Fresh (p : PartitionId) : Action → Prop
  | .append => ((w.progress p).map Progress.rows).getD 0 = (w.work p).card
  | _ => w.work p = 0

/-- If a copy has as many rows as there are up to a block, it has these rows. -/
def Matches (p : PartitionId) (maxBlock : ℤ) (rows : Multiset ρ) : Prop :=
  rows.card = (rowsUpTo (w.source p) maxBlock).card → rows = rowsUpTo (w.source p) maxBlock

/-- A partition has been found ready for the exchange, or is exchanged. -/
def Settled (p : PartitionId) : Prop :=
  w.exchanged = true ∨ match w.phase with
    | .visiting pass => pass.check = true ∧ p ∉ pass.todo
    | .counted pass q _ => pass.check = true ∧ p ∉ q :: pass.todo
    | .ready => True
    | _ => False

/-- **What the plan relies on.** Where the recorded rows are counted, parts that have been merged
since they were listed do not hide a difference. Where a full copy stops before its progress is
saved, and where an abandoned insert writes, there are not as many rows as recorded then, unless they
are those. Where an abandoned insert has written before it was killed, the copy does not have as many
rows as it should, unless they are those. A partition that is ready for the exchange is not written
to. -/
def Careful (w : Rebuild ρ) : RebuildEvent ρ → Prop
  | .countSource =>
      match w.phase with
      | .visiting ⟨check, listing, p :: todo⟩ => ∀ prog, w.progress p = some prog →
          w.countOld ⟨check, listing, todo⟩ p prog = prog.rows →
            (allRows (oldParts (listing p) prog.maxBlock)).card = prog.rows
      | _ => True
  | .abandoned p rows =>
      (w.phase.Rewrites p ∨ w.Tells p (w.work p + rows)) ∧ (w.Settled p → rows = 0)
  | .copy =>
      match w.phase with
      | .killed action _ p names maxBlock =>
          w.Fresh p action ∨ w.Matches p maxBlock (w.work p + rowsNamed (w.source p) names)
      | _ => True
  | .stop written =>
      match w.phase with
      | .copying .full _ p _ _ | .written .full _ p _ => w.Tells p (w.work p)
      | .killed .full _ p _ _ => w.Tells p (w.work p + written)
      | _ => True
  | _ => True

end Model

end Rebuild

end Nodeglow.ClickHouse
