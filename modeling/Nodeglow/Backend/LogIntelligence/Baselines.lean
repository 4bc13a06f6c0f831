import Mathlib.Algebra.Order.Field.Rat
import Mathlib.Data.List.Range
import Mathlib.Tactic.Ring
import Nodeglow.Foundation.Run

/-!
# The volume baselines of the hosts

How many messages a host sends in an hour of the day is estimated in the table of baselines: one
row for each host, hour of the day and weekday, and one for all weekdays together. The baseline job
folds each completed hour into the rows of that hour. How far it has come is stored with the rows,
in the same transaction, and mirrored in the memory of the process. A second job counts the distinct
templates of the hosts, and writes other columns of the same rows.

Both jobs are transactions that other steps can come between. At most one baseline job is under way.
What the estimate of the rate is (a mean and a deviation, in floating point) does not matter here;
it is given by its value without samples, and by how a sample is folded in.

## Main results

* `mem_baselineHoursDue`, `isChain_baselineHoursDue` — the hours that are due.
* `startBaseline_cases`, `step_commit` — what a step leaves.

Source: `backend/services/log_intelligence.py`, lines 612–855 and 1447–1532.
-/

namespace Nodeglow.LogIntelligence

/-! ### Hours

A full hour is given by its number, counted from the epoch, a time in microseconds. -/

/-- `BASELINE_SETTLE_SECONDS`, in microseconds. -/
def settle : ℤ := 120 * 1000000

/-- One hour, in microseconds. -/
def oneHour : ℤ := 3600 * 1000000

/-- `BASELINE_BACKFILL_HOURS`. -/
def backfillHours : ℤ := 24

/-- The last hour that is completed, at a time in microseconds. -/
def latestHour (now : ℤ) : ℤ := (now - settle) / oneHour - 1

/-- The hours from one to another. -/
def hoursFrom (start latest : ℤ) : List ℤ :=
  (List.range (latest + 1 - start).toNat).map fun i : ℕ => start + i

/-- `baseline_hours_due`. -/
def baselineHoursDue (doneThrough : Option ℤ) (now : ℤ) : List ℤ :=
  let latest := latestHour now
  let earliest := latest - (backfillHours - 1)
  let start := match doneThrough with
    | none => earliest
    | some done => max (done + 1) earliest
  hoursFrom start latest

/-- `hour` of a time. -/
def hourOfDay (hour : ℤ) : ℕ := (hour % 24).toNat

/-- `weekday()` of a time, 0 for a Monday; the epoch was a Thursday. -/
def weekday (hour : ℤ) : ℕ := ((hour / 24 + 3) % 7).toNat

/-- `BASELINE_ANY_DAY`. -/
def anyDay : ℕ := 7

/-! ### The table -/

/-- What identifies a row, in one tenant. -/
structure Slot where
  hostKey : String
  hour : ℕ
  day : ℕ
  deriving DecidableEq, Repr

/-- The slots of a host that an hour is folded into. -/
def Slot.Covers (slot : Slot) (hour : ℤ) : Prop :=
  slot.hour = hourOfDay hour ∧ (slot.day = weekday hour ∨ slot.day = anyDay)

instance (slot : Slot) (hour : ℤ) : Decidable (slot.Covers hour) :=
  inferInstanceAs (Decidable (_ ∧ _))

/-- `HostBaseline`: the rate and the deviation, the number of samples, and the diversity of
templates. -/
structure Row (σ : Type) where
  rate : σ
  sampleCount : ℕ
  avgTemplateCount : ℚ
  stdTemplateCount : ℚ

/-- The rate and the number of samples of a row. -/
def Row.stats {σ : Type} (row : Row σ) : σ × ℕ := (row.rate, row.sampleCount)

/-- `ewma_update`: how a sample is folded into a rate that is based on a number of samples. -/
structure Estimator (σ : Type) where
  zero : σ
  fold : σ → ℕ → ℕ → σ

/-- The rate and the number of samples, with one sample more. -/
def Estimator.update {σ : Type} (est : Estimator σ) (stats : σ × ℕ) (sample : ℕ) : σ × ℕ :=
  (est.fold stats.1 stats.2 sample, stats.2 + 1)

/-- What the rate and the number of samples are for a list of samples. -/
def Estimator.run {σ : Type} (est : Estimator σ) (samples : List ℕ) : σ × ℕ :=
  samples.foldl est.update (est.zero, 0)

/-! ### The jobs -/

/-- A baseline job under way. -/
structure BaselineTx (σ : Type) where
  process : ℕ
  now : ℤ
  /-- The messages that were received in an hour, for each host. -/
  volume : ℤ → String → ℕ
  hours : List ℤ
  todo : List ℤ
  known : String → Bool
  /-- The rates and numbers of samples that it has written. -/
  writes : Slot → Option (σ × ℕ)
  folds : String → List (ℤ × ℕ)

/-- A diversity job that has read its rows: the templates of each host, and the rows as they
were. -/
structure DiversityTx (σ : Type) where
  now : ℤ
  diversity : List (String × ℕ)
  seen : Slot → Option (Row σ)

/-- The table, the progress that is stored and its mirrors in memory, and the jobs under way. The
last three fields record what happened: the hours folded in, when the last job began, and when the
last one began that found nothing to do or was committed. -/
structure State (σ : Type) where
  rows : Slot → Option (Row σ)
  progress : Option ℤ
  doneThrough : ℕ → Option ℤ
  baseline : Option (BaselineTx σ)
  diversity : Option (DiversityTx σ)
  folds : String → List (ℤ × ℕ)
  clock : Option ℤ
  completed : Option ℤ

namespace State

variable {σ : Type}

/-- Nothing is stored, and nothing runs. -/
def init : State σ where
  rows _ := none
  progress := none
  doneThrough _ := none
  baseline := none
  diversity := none
  folds _ := []
  clock := none
  completed := none

/-- Whether a host has a baseline. -/
def known (s : State σ) (hostKey : String) : Bool :=
  hostKey ≠ "" && (List.range 24).any fun hour => (List.range 8).any fun day =>
    (s.rows ⟨hostKey, hour, day⟩).isSome

end State

namespace BaselineTx

variable {σ : Type}

/-- What the job sees in a slot: what it has written, or else what is stored. -/
def seen (tx : BaselineTx σ) (rows : Slot → Option (Row σ)) (slot : Slot) : Option (σ × ℕ) :=
  (tx.writes slot).or ((rows slot).map Row.stats)

/-- Whether a host gets a sample for an hour: it has a baseline, or was seen up to that hour. -/
def isSource (tx : BaselineTx σ) (hour : ℤ) (hostKey : String) : Bool :=
  tx.known hostKey ||
    hostKey ≠ "" && tx.hours.any fun h => decide (h ≤ hour) && decide (0 < tx.volume h hostKey)

/-- The start of a job with work to do. Without stored progress the rates start over. -/
def start (est : Estimator σ) (s : State σ) (process : ℕ) (now : ℤ) (volume : ℤ → String → ℕ)
    (hours : List ℤ) : BaselineTx σ where
  process := process
  now := now
  volume := volume
  hours := hours
  todo := hours
  known := s.known
  writes slot := if s.progress = none then (s.rows slot).map fun _ => (est.zero, 0) else none
  folds := if s.progress = none then fun _ => [] else s.folds

/-- One turn of the loop over the hours. -/
def foldHour (est : Estimator σ) (rows : Slot → Option (Row σ)) (tx : BaselineTx σ) (hour : ℤ)
    (todo : List ℤ) : BaselineTx σ :=
  { tx with
    todo := todo
    known := tx.isSource hour
    writes := fun slot =>
      if slot.Covers hour ∧ tx.isSource hour slot.hostKey then
        some (est.update ((tx.seen rows slot).getD (est.zero, 0)) (tx.volume hour slot.hostKey))
      else tx.writes slot
    folds := fun hostKey =>
      if tx.isSource hour hostKey then tx.folds hostKey ++ [(hour, tx.volume hour hostKey)]
      else tx.folds hostKey }

/-- The table after `_upsert_baselines`: only the rates and the numbers of samples are written. -/
def upsert (tx : BaselineTx σ) (rows : Slot → Option (Row σ)) (slot : Slot) : Option (Row σ) :=
  match tx.writes slot, rows slot with
  | none, row => row
  | some (rate, n), some row => some { row with rate := rate, sampleCount := n }
  | some (rate, n), none =>
    some { rate := rate, sampleCount := n, avgTemplateCount := 0, stdTemplateCount := 0 }

end BaselineTx

namespace DiversityTx

variable {σ : Type}

/-- Whether a key stands for a host, and not for an address. -/
def isHostKey (hostKey : String) : Bool := "host:".toList.isPrefixOf hostKey.toList

/-- The diversity of a slot, if it is one of the current hour. -/
def result (tx : DiversityTx σ) (slot : Slot) : Option ℕ :=
  if slot.Covers tx.now ∧ slot.hostKey ≠ "" then tx.diversity.lookup slot.hostKey else none

/-- The moving averages of the diversity. -/
def average (row : Row σ) (diversity : ℕ) : Row σ :=
  let avg : ℚ := 3 / 10 * diversity + (1 - 3 / 10) * row.avgTemplateCount
  { row with
    avgTemplateCount := avg
    stdTemplateCount := max 1 ((1 - 3 / 10) * row.stdTemplateCount + 3 / 10 * |diversity - avg|) }

/-- The table after the job: the rows of the current hour get the diversity; those of hosts are
created where they are missing, and their samples are counted. -/
def write (est : Estimator σ) (tx : DiversityTx σ) (rows : Slot → Option (Row σ)) (slot : Slot) :
    Option (Row σ) :=
  match tx.result slot with
  | none => rows slot
  | some diversity =>
    match tx.seen slot with
    | some old => (rows slot).map fun row =>
        let new := average old diversity
        { row with
          sampleCount := if isHostKey slot.hostKey then old.sampleCount + 1 else row.sampleCount
          avgTemplateCount := new.avgTemplateCount
          stdTemplateCount := new.stdTemplateCount }
    | none =>
      if isHostKey slot.hostKey then
        some (average { rate := est.zero, sampleCount := 1, avgTemplateCount := 0,
                        stdTemplateCount := 0 } diversity)
      else rows slot

/-- A row of a host that the job is to create is there meanwhile, so that its insert fails. -/
def conflicts (tx : DiversityTx σ) (rows : Slot → Option (Row σ)) : Bool :=
  tx.diversity.any fun result => isHostKey result.1 && [weekday tx.now, anyDay].any fun day =>
    let slot : Slot := ⟨result.1, hourOfDay tx.now, day⟩
    (tx.seen slot).isNone && (rows slot).isSome

end DiversityTx

/-- What can happen. -/
inductive Event
  /-- `compute_baselines` begins, with the messages that it counts. -/
  | start (process : ℕ) (now : ℤ) (volume : ℤ → String → ℕ)
  /-- It folds in the next hour. -/
  | foldHour
  /-- It commits the rows and the progress, and mirrors the progress. -/
  | commit
  /-- It commits, but the commit is reported as failed. -/
  | commitUnreported
  /-- It fails, and is rolled back. -/
  | fail
  /-- A process starts anew. -/
  | restart (process : ℕ)
  /-- `compute_template_diversity` reads the rows of the current hour. -/
  | readDiversity (now : ℤ) (diversity : List (String × ℕ))
  /-- It commits. -/
  | commitDiversity
  /-- It fails, and is rolled back. -/
  | failDiversity

variable {σ : Type}

/-- The start of `compute_baselines`: it returns where nothing is due. -/
def State.startBaseline (est : Estimator σ) (s : State σ) (process : ℕ) (now : ℤ)
    (volume : ℤ → String → ℕ) : State σ :=
  let s := { s with clock := some now }
  let idle := (s.doneThrough process).any fun done => (baselineHoursDue (some done) now).isEmpty
  if idle then { s with completed := some now }
  else
    match baselineHoursDue s.progress now with
    | [] =>
      { s with
        doneThrough := Function.update s.doneThrough process
          (s.progress.or (s.doneThrough process))
        completed := some now }
    | hour :: hours => { s with baseline := some (.start est s process now volume (hour :: hours)) }

/-- The state after the transaction of a baseline job. -/
def State.commitBaseline (s : State σ) (tx : BaselineTx σ) : State σ :=
  { s with
    rows := tx.upsert s.rows
    progress := tx.hours.getLast?
    baseline := none
    folds := tx.folds
    completed := some tx.now }

/-- A step of the system. Times do not decrease. -/
def step (est : Estimator σ) (s : State σ) : Event → Option (State σ)
  | .start process now volume =>
    match s.baseline with
    | some _ => none
    | none =>
      if s.clock.all fun clock => clock ≤ now then some (s.startBaseline est process now volume)
      else none
  | .foldHour =>
    s.baseline.bind fun tx =>
      match tx.todo with
      | [] => none
      | hour :: todo => some { s with baseline := some (tx.foldHour est s.rows hour todo) }
  | .commit =>
    s.baseline.bind fun tx =>
      if tx.todo = [] then
        some { s.commitBaseline tx with
          doneThrough := Function.update s.doneThrough tx.process tx.hours.getLast? }
      else none
  | .commitUnreported =>
    s.baseline.bind fun tx => if tx.todo = [] then some (s.commitBaseline tx) else none
  | .fail => s.baseline.map fun _ => { s with baseline := none }
  | .restart process =>
    some { s with
      doneThrough := Function.update s.doneThrough process none
      baseline := s.baseline.filter fun tx => tx.process ≠ process }
  | .readDiversity now diversity =>
    match s.diversity with
    | some _ => none
    | none => some { s with diversity := some ⟨now, diversity, s.rows⟩ }
  | .commitDiversity =>
    s.diversity.bind fun tx =>
      if tx.conflicts s.rows then none
      else some { s with rows := tx.write est s.rows, diversity := none }
  | .failDiversity => s.diversity.map fun _ => { s with diversity := none }

/-! ### The hours that are due -/

section Hours

variable {start latest h now done : ℤ} {doneThrough : Option ℤ}

theorem mem_hoursFrom : h ∈ hoursFrom start latest ↔ start ≤ h ∧ h ≤ latest := by
  simp only [hoursFrom, List.mem_map, List.mem_range]
  constructor
  · rintro ⟨i, hi, rfl⟩
    omega
  · rintro ⟨hstart, hlatest⟩
    exact ⟨(h - start).toNat, by omega, by omega⟩

theorem hoursFrom_eq_nil : hoursFrom start latest = [] ↔ latest < start := by
  simp only [hoursFrom, List.map_eq_nil_iff, List.range_eq_nil]
  omega

theorem head?_hoursFrom (hle : start ≤ latest) : (hoursFrom start latest).head? = some start := by
  have hne : (latest + 1 - start).toNat ≠ 0 := by omega
  simp [hoursFrom, List.head?_range, hne]

theorem getLast?_hoursFrom (hle : start ≤ latest) :
    (hoursFrom start latest).getLast? = some latest := by
  have hne : (latest + 1 - start).toNat ≠ 0 := by omega
  rw [hoursFrom, List.getLast?_map, List.getLast?_range, if_neg hne, Option.map_some]
  congr 1
  omega

/-- Each of the hours follows the one before. -/
theorem isChain_hoursFrom : (hoursFrom start latest).IsChain fun a b => b = a + 1 := by
  rw [hoursFrom, List.isChain_map]
  generalize (latest + 1 - start).toNat = n
  rcases n with _ | n
  · exact .nil
  · rw [List.isChain_range_succ]
    intro i _
    push_cast
    ring

/-- The hours that are due end with the latest completed hour. -/
theorem mem_baselineHoursDue (hh : h ∈ baselineHoursDue doneThrough now) : h ≤ latestHour now :=
  (mem_hoursFrom.mp hh).2

theorem lt_of_mem_baselineHoursDue (hh : h ∈ baselineHoursDue (some done) now) : done < h := by
  have hstart := (mem_hoursFrom.mp hh).1
  exact lt_of_lt_of_le (lt_add_one done) ((le_max_left _ _).trans hstart)

theorem isChain_baselineHoursDue :
    (baselineHoursDue doneThrough now).IsChain fun a b => b = a + 1 :=
  isChain_hoursFrom

theorem getLast?_baselineHoursDue (hne : baselineHoursDue doneThrough now ≠ []) :
    (baselineHoursDue doneThrough now).getLast? = some (latestHour now) :=
  getLast?_hoursFrom (not_lt.mp (mt hoursFrom_eq_nil.mpr hne))

/-- Nothing is due only when the latest completed hour was folded in. -/
theorem baselineHoursDue_eq_nil (hnil : baselineHoursDue doneThrough now = []) :
    ∃ done, doneThrough = some done ∧ latestHour now ≤ done := by
  have hlt := hoursFrom_eq_nil.mp hnil
  cases doneThrough with
  | none =>
    simp only [backfillHours] at hlt
    omega
  | some done =>
    simp only [backfillHours] at hlt
    exact ⟨done, rfl, by omega⟩

/-- Up to a day after an hour was folded in, the next one is due first. -/
theorem head?_baselineHoursDue (hgap : latestHour now ≤ done + backfillHours)
    (hne : baselineHoursDue (some done) now ≠ []) :
    (baselineHoursDue (some done) now).head? = some (done + 1) := by
  have hle := not_lt.mp (mt hoursFrom_eq_nil.mpr hne)
  have hstart : max (done + 1) (latestHour now - (backfillHours - 1)) = done + 1 :=
    max_eq_left (by omega)
  simp only [baselineHoursDue, hstart] at hle ⊢
  exact head?_hoursFrom hle

end Hours

/-! ### Steps -/

section Steps

variable {est : Estimator σ} {s s' : State σ} {process : ℕ} {now : ℤ} {volume : ℤ → String → ℕ}

theorem step_start (h : step est s (.start process now volume) = some s') :
    s.baseline = none ∧ s' = s.startBaseline est process now volume := by
  simp only [step] at h
  split at h
  · cases h
  next hnone =>
    obtain ⟨-, h⟩ := Option.ite_none_right_eq_some.mp h
    exact ⟨hnone, (Option.some.inj h).symm⟩

theorem step_foldHour (h : step est s .foldHour = some s') :
    ∃ tx hour todo, s.baseline = some tx ∧ tx.todo = hour :: todo ∧
      s' = { s with baseline := some (tx.foldHour est s.rows hour todo) } := by
  obtain ⟨tx, htx, h⟩ := Option.bind_eq_some_iff.mp h
  split at h
  · cases h
  next hour todo htodo => exact ⟨tx, hour, todo, htx, htodo, (Option.some.inj h).symm⟩

theorem step_commit (h : step est s .commit = some s') :
    ∃ tx, s.baseline = some tx ∧ tx.todo = [] ∧
      s' = { s.commitBaseline tx with
        doneThrough := Function.update s.doneThrough tx.process tx.hours.getLast? } := by
  obtain ⟨tx, htx, h⟩ := Option.bind_eq_some_iff.mp h
  obtain ⟨htodo, h⟩ := Option.ite_none_right_eq_some.mp h
  exact ⟨tx, htx, htodo, (Option.some.inj h).symm⟩

theorem step_commitUnreported (h : step est s .commitUnreported = some s') :
    ∃ tx, s.baseline = some tx ∧ tx.todo = [] ∧ s' = s.commitBaseline tx := by
  obtain ⟨tx, htx, h⟩ := Option.bind_eq_some_iff.mp h
  obtain ⟨htodo, h⟩ := Option.ite_none_right_eq_some.mp h
  exact ⟨tx, htx, htodo, (Option.some.inj h).symm⟩

theorem step_readDiversity {diversity : List (String × ℕ)}
    (h : step est s (.readDiversity now diversity) = some s') :
    s' = { s with diversity := some ⟨now, diversity, s.rows⟩ } := by
  simp only [step] at h
  split at h
  · cases h
  · exact (Option.some.inj h).symm

theorem step_commitDiversity (h : step est s .commitDiversity = some s') :
    ∃ tx, s.diversity = some tx ∧
      s' = { s with rows := tx.write est s.rows, diversity := none } := by
  obtain ⟨tx, htx, h⟩ := Option.bind_eq_some_iff.mp h
  obtain ⟨-, h⟩ := Option.ite_none_left_eq_some.mp h
  exact ⟨tx, htx, (Option.some.inj h).symm⟩

/-- A job ends at once, where the process or the table knows that nothing is due, or goes on with
the hours that are due. -/
theorem startBaseline_cases (est : Estimator σ) (s : State σ) (process : ℕ) (now : ℤ)
    (volume : ℤ → String → ℕ) :
    (∃ done, s.doneThrough process = some done ∧ baselineHoursDue (some done) now = [] ∧
      s.startBaseline est process now volume =
        { s with clock := some now, completed := some now }) ∨
    (baselineHoursDue s.progress now = [] ∧ s.startBaseline est process now volume =
      { s with
        clock := some now
        doneThrough := Function.update s.doneThrough process
          (s.progress.or (s.doneThrough process))
        completed := some now }) ∨
    ∃ hours, baselineHoursDue s.progress now = hours ∧ hours ≠ [] ∧
      s.startBaseline est process now volume =
        { s with
          clock := some now
          baseline := some (.start est { s with clock := some now } process now volume hours) } := by
  unfold State.startBaseline
  dsimp only
  split
  next hidle =>
    obtain ⟨done, hdone, hnil⟩ := (Option.any_eq_true _ _).mp hidle
    exact .inl ⟨done, hdone, List.isEmpty_iff.mp hnil, rfl⟩
  next =>
    split
    next hnil => exact .inr (.inl ⟨hnil, rfl⟩)
    next hour hours hdue => exact .inr (.inr ⟨hour :: hours, hdue, List.cons_ne_nil _ _, rfl⟩)

end Steps

end Nodeglow.LogIntelligence
