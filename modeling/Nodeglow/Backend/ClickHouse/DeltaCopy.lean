import Nodeglow.Backend.ClickHouse.TableRebuild

/-!
# The delta copy

After the exchange rows still arrive in the old table. They are copied over in passes: the parts
after the recorded block go to a staging table, an intent with the block and the number of rows that
will then be recorded is saved, the staged partition is moved into the live table, the progress is
saved, and the intent is cleared. A pass begins by finishing the intents that an earlier one left.
When a pass has ended the old table is verified. The first verification begins the grace period; the
old table is dropped after another pass and another verification.

A run may stop at any point. An insert from the old table goes on in the server then, until the next
run kills it: the rows that it has yet to write may still be staged. The merges of the old table are
stopped. Rows that are inserted into the live table itself are left out, since nothing reads them.

Source: `backend/services/clickhouse_rebuild.py`, lines 363–371, 414–507 and 585–621.
-/

namespace Nodeglow.ClickHouse

open MergeTree

variable {ρ : Type}

/-- `_delta_plan`. -/
def deltaPlan (parts : List (DataPart ρ)) (prog : Progress) : List (DataPart ρ) × Bool :=
  if prog.maxBlock < 0 then (parts, true)
  else (newParts parts prog.maxBlock, (newParts parts prog.maxBlock).length +
    (oldParts parts prog.maxBlock).length = parts.length)

/-- Of the parts of a partition, `prog` records the last block of some rows, and their number. -/
structure Records (parts : List (DataPart ρ)) (nextBlock : ℤ) (prog : Progress)
    (rows : Multiset ρ) : Prop where
  lt : prog.maxBlock < nextBlock
  whole : ∀ q ∈ parts, q.maxBlock ≤ prog.maxBlock ∨ prog.maxBlock < q.minBlock
  eq : rows = rowsUpTo parts prog.maxBlock
  card : rows.card = prog.rows

/-- Why a table needs attention. -/
inductive Attention
  /-- A part mixes copied rows with later ones. -/
  | mixed
  /-- A part is left uncopied, or a partition holds more rows than were copied. -/
  | unverified
  deriving DecidableEq, Repr

/-- What is left of `copy_delta`: partitions whose intents are to be finished, or listed ones to
visit. -/
inductive Rest (ρ : Type)
  | finishing (todo : List PartitionId)
  | copying (listing : PartitionId → List (DataPart ρ)) (todo : List PartitionId)

/-- Where the run is. -/
inductive DeltaPhase (ρ : Type)
  | idle
  | rest (rest : Rest ρ)
  /-- There are late parts in a partition; its staging leftovers are discarded next. -/
  | found (listing : PartitionId → List (DataPart ρ)) (todo : List PartitionId) (p : PartitionId)
  /-- An abandoned insert is killed next. -/
  | discarded (listing : PartitionId → List (DataPart ρ)) (todo : List PartitionId)
    (p : PartitionId)
  /-- The late parts are inserted next. -/
  | killed (listing : PartitionId → List (DataPart ρ)) (todo : List PartitionId) (p : PartitionId)
  /-- The staged rows are counted and the intent is recorded next. -/
  | staged (listing : PartitionId → List (DataPart ρ)) (todo : List PartitionId) (p : PartitionId)
  /-- The `n` staged rows are moved next. -/
  | intended (rest : Rest ρ) (p : PartitionId) (n : ℕ) (done : Progress)
  /-- The progress is saved next. -/
  | moved (rest : Rest ρ) (p : PartitionId) (done : Progress)
  /-- The intent is cleared next. -/
  | recorded (rest : Rest ρ) (p : PartitionId)
  | copied (listing : PartitionId → List (DataPart ρ))
  | verified

/-- The tables after the exchange, the progress, and the run. -/
structure Delta (ρ : Type) where
  /-- The partitions with inserted rows. -/
  ids : List PartitionId
  old : PartitionId → List (DataPart ρ)
  nextBlock : ℤ
  live : PartitionId → Multiset ρ
  staging : PartitionId → Multiset ρ
  /-- The rows that an abandoned insert has yet to stage. -/
  abandoned : PartitionId → Multiset ρ
  progress : PartitionId → Progress
  /-- The progress under the key `<partition>@staged`. -/
  intent : PartitionId → Progress
  phase : DeltaPhase ρ
  /-- The state `delta_done`: the grace period has begun. -/
  deltaDone : Bool
  attention : Option Attention
  dropped : Bool

inductive DeltaEvent (ρ : Type)
  | insert (p : PartitionId) (rows : Multiset ρ)
  /-- An abandoned insert stages rows. -/
  | abandoned (p : PartitionId) (rows : Multiset ρ)
  /-- `copy_delta` begins. -/
  | start
  /-- The next intent is looked at. -/
  | resume
  | list
  | visit
  | discard
  | kill
  | stage
  | intend
  | move
  | record
  | clear
  /-- `copy_delta` returns. -/
  | finish
  | verify
  | setDone
  | dropOld
  /-- The run stops. Of an insert some rows are staged; the others it may stage later. -/
  | stop (written : Multiset ρ)

namespace Delta

section Model

variable (w : Delta ρ)

def setPhase (phase : DeltaPhase ρ) : Delta ρ := { w with phase := phase }

def setStaging (p : PartitionId) (rows : Multiset ρ) : Delta ρ :=
  { w with staging := Function.update w.staging p rows }

def setAbandoned (p : PartitionId) (rows : Multiset ρ) : Delta ρ :=
  { w with abandoned := Function.update w.abandoned p rows }

/-- `_save_progress` of a partition. -/
def saveProgress (p : PartitionId) (prog : Progress) : Delta ρ :=
  { w with progress := Function.update w.progress p prog }

/-- `_save_progress` of the intent of a partition. -/
def saveIntent (p : PartitionId) (prog : Progress) : Delta ρ :=
  { w with intent := Function.update w.intent p prog }

/-- `MOVE PARTITION` to the live table. -/
def movePartition (p : PartitionId) : Delta ρ :=
  { w.setStaging p 0 with live := Function.update w.live p (w.live p + w.staging p) }

/-- An intent is pending. -/
def Pending (p : PartitionId) : Prop := 0 ≤ (w.intent p).maxBlock

instance (p : PartitionId) : Decidable (w.Pending p) := inferInstanceAs (Decidable (_ ≤ _))

/-- The rows of the parts to copy, by their names. -/
def lateRows (listing : PartitionId → List (DataPart ρ)) (p : PartitionId) : Multiset ρ :=
  rowsNamed (w.old p) ((deltaPlan (listing p) (w.progress p)).1.map DataPart.name)

/-- What `verify_old` demands of a partition. -/
def Verifies (p : PartitionId) : Prop :=
  (deltaPlan (w.old p) (w.progress p)).1 = [] ∧ (deltaPlan (w.old p) (w.progress p)).2 = true ∧
    (allRows (w.old p)).card ≤ (w.progress p).rows

instance (p : PartitionId) : Decidable (w.Verifies p) := inferInstanceAs (Decidable (_ ∧ _))

/-- `verify_old`. -/
def VerifyOld : Prop := ∀ p ∈ w.ids, w.old p ≠ [] → w.Verifies p

instance : Decidable w.VerifyOld :=
  inferInstanceAs (Decidable (∀ p ∈ w.ids, w.old p ≠ [] → w.Verifies p))

/-- One event; it has no value where the event cannot happen. -/
def step [DecidableEq ρ] : DeltaEvent ρ → Option (Delta ρ)
  | .insert p rows =>
      match w.phase with
      | .verified => none
      | _ =>
          if w.dropped then none
          else some { w with
            ids := if p ∈ w.ids then w.ids else p :: w.ids
            old := Function.update w.old p (w.old p ++ [.ofInsert w.nextBlock rows])
            nextBlock := w.nextBlock + 1 }
  | .abandoned p rows =>
      if rows ≤ w.abandoned p then
        some ((w.setStaging p (w.staging p + rows)).setAbandoned p (w.abandoned p - rows))
      else none
  | .start =>
      if w.attention = none ∧ w.dropped = false then
        match w.phase with
        | .idle | .copied _ => some (w.setPhase (.rest (.finishing w.ids)))
        | _ => none
      else none
  | .resume =>
      match w.phase with
      | .rest (.finishing (p :: todo)) => some (w.setPhase (if w.Pending p then
          .intended (.finishing todo) p (w.staging p).card (w.intent p) else .rest (.finishing todo)))
      | _ => none
  | .list =>
      match w.phase with
      | .rest (.finishing []) => some (w.setPhase (.rest
          (.copying w.old ((w.ids.filter fun p => w.old p ≠ []).insertionSort (· ≤ ·)))))
      | _ => none
  | .visit =>
      match w.phase with
      | .rest (.copying listing (p :: todo)) =>
          match deltaPlan (listing p) (w.progress p) with
          | (_, false) => some { w.setPhase .idle with attention := some .mixed }
          | ([], true) => some (w.setPhase (.rest (.copying listing todo)))
          | (_ :: _, true) => some (w.setPhase (.found listing todo p))
      | _ => none
  | .discard =>
      match w.phase with
      | .found listing todo p => some ((w.setStaging p 0).setPhase (.discarded listing todo p))
      | _ => none
  | .kill =>
      match w.phase with
      | .discarded listing todo p =>
          some ((w.setAbandoned p 0).setPhase (.killed listing todo p))
      | _ => none
  | .stage =>
      match w.phase with
      | .killed listing todo p => some
          ((w.setStaging p (w.staging p + w.lateRows listing p)).setPhase (.staged listing todo p))
      | _ => none
  | .intend =>
      match w.phase with
      | .staged listing todo p =>
          let n := (w.staging p).card
          let done : Progress := ⟨lastBlock (listing p), (w.progress p).rows + n⟩
          some ((w.saveIntent p done).setPhase (.intended (.copying listing todo) p n done))
      | _ => none
  | .move =>
      match w.phase with
      | .intended rest p n done =>
          some ((if n = 0 then w else w.movePartition p).setPhase (.moved rest p done))
      | _ => none
  | .record =>
      match w.phase with
      | .moved rest p done => some ((w.saveProgress p done).setPhase (.recorded rest p))
      | _ => none
  | .clear =>
      match w.phase with
      | .recorded rest p => some ((w.saveIntent p .none).setPhase (.rest rest))
      | _ => none
  | .finish =>
      match w.phase with
      | .rest (.copying listing []) => some (w.setPhase (.copied listing))
      | _ => none
  | .verify =>
      match w.phase with
      | .copied _ =>
          if w.VerifyOld then some (w.setPhase .verified)
          else some { w.setPhase .idle with attention := some .unverified }
      | _ => none
  | .setDone =>
      match w.phase with
      | .verified => if w.deltaDone then none else some { w.setPhase .idle with deltaDone := true }
      | _ => none
  | .dropOld =>
      match w.phase with
      | .verified => if w.deltaDone then some { w.setPhase .idle with dropped := true } else none
      | _ => none
  | .stop written =>
      match w.phase with
      | .idle => none
      | .killed listing _ p =>
          if written ≤ w.lateRows listing p then
            some (((w.setStaging p (w.staging p + written)).setAbandoned p
              (w.lateRows listing p - written)).setPhase .idle)
          else none
      | _ => some (w.setPhase .idle)

/-- The transition relation of `Delta.step`. -/
def Step [DecidableEq ρ] (w : Delta ρ) (e : DeltaEvent ρ) (w' : Delta ρ) : Prop :=
  w.step e = some w'

/-- What the exchange leaves: of every partition, the live table holds the recorded rows. -/
structure Exchanged : Prop where
  phase : w.phase = .idle
  attention : w.attention = none
  dropped : w.dropped = false
  nonneg : 0 ≤ w.nextBlock
  parts : ∀ p, ∀ q ∈ w.old p, 0 ≤ q.minBlock ∧ q.maxBlock < w.nextBlock
  ids : ∀ p, p ∉ w.ids → w.old p = []
  intent : ∀ p, w.intent p = .none
  records : ∀ p, Records (w.old p) w.nextBlock (w.progress p) (w.live p)

/-- **What a run relies on.** No abandoned insert stages rows of a partition after its leftovers
have been discarded, and before the insert is killed. -/
def Undisturbed : DeltaEvent ρ → Prop
  | .abandoned p rows =>
      match w.phase with
      | .discarded _ _ q => q = p → rows = 0
      | _ => True
  | _ => True

end Model

end Delta

namespace Rebuild

/-- The tables after the exchange. -/
def exchangedTables (w : Rebuild ρ) : Delta ρ where
  ids := w.ids
  old := w.source
  nextBlock := w.nextBlock
  live := w.work
  staging _ := 0
  abandoned _ := 0
  progress p := (w.progress p).getD .none
  intent _ := .none
  phase := .idle
  deltaDone := false
  attention := none
  dropped := false

end Rebuild

end Nodeglow.ClickHouse
