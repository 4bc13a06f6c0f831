import Nodeglow.Backend.LogIntelligence.BaselineHours

/-!
# What the number of samples counts

Whether a baseline is used is decided by its number of samples. The baseline job counts each hour
that it folds into the rate. The diversity job counts the rows of hosts once more in each run, and
creates those that are missing with a first sample, although the baseline job now writes the rows of
hosts too. So the number is the number of hours folded in as long as no diversity job writes a row
of a host.

## Main results

* `CountInv.step` — the steps that meet the condition keep the rows the folds of their samples.
* `sampleCount_eq_length` — the number of samples.
* `sampleCount_hostKey` — one diversity job with a host.

Source: `backend/services/log_intelligence.py`, lines 801–842, 858–867 and 1495–1513.
-/

namespace Nodeglow.LogIntelligence

variable {σ : Type} {est : Estimator σ} {s s' : State σ} {tx : BaselineTx σ}

/-- The samples that were folded into a row, of the hours that it covers. -/
def samples (folds : String → List (ℤ × ℕ)) (slot : Slot) : List ℕ :=
  ((folds slot.hostKey).filter fun fold => slot.Covers fold.1).map Prod.snd

/-- The diversity jobs that take effect have counted for addresses only. -/
def NoHostKeys (s : State σ) : Event → Bool
  | .commitDiversity =>
    s.diversity.all fun tx => tx.diversity.all fun result => !DiversityTx.isHostKey result.1
  | _ => true

/-- `BASELINE_MIN_SAMPLES`. -/
def minSamples : ℕ := 3

/-- `pick_baseline`. -/
def pickBaseline (weekdaySlot anyDaySlot : Option (Row σ)) : Option (Row σ) :=
  [weekdaySlot, anyDaySlot].findSome? fun row => row.filter fun row => minSamples ≤ row.sampleCount

/-- The rates and numbers of samples of a table are those of the samples that were folded in. -/
def Truthful (est : Estimator σ) (stats : Slot → Option (σ × ℕ)) (folds : String → List (ℤ × ℕ)) :
    Prop :=
  ∀ slot, (stats slot).getD (est.zero, 0) = est.run (samples folds slot)

/-- The table is truthful, and so is what a baseline job sees of it. -/
structure CountInv (est : Estimator σ) (s : State σ) : Prop where
  rows : Truthful est (fun slot => (s.rows slot).map Row.stats) s.folds
  baseline : ∀ tx, s.baseline = some tx → Truthful est (tx.seen s.rows) tx.folds

/-! ### Samples -/

theorem Estimator.run_concat (xs : List ℕ) (x : ℕ) :
    est.run (xs ++ [x]) = est.update (est.run xs) x := by
  simp [Estimator.run]

/-- Each sample is counted. -/
theorem Estimator.run_snd (xs : List ℕ) : (est.run xs).2 = xs.length := by
  induction xs using List.reverseRecOn with
  | nil => rfl
  | append_singleton xs x ih => simp [Estimator.run_concat, Estimator.update, ih]

/-! ### The baseline job -/

theorem truthful_start (h : CountInv est s) {process : ℕ} {now : ℤ} {volume : ℤ → String → ℕ}
    {hours : List ℤ} :
    Truthful est ((BaselineTx.start est s process now volume hours).seen s.rows)
      (BaselineTx.start est s process now volume hours).folds := by
  intro slot
  simp only [BaselineTx.seen, BaselineTx.start]
  split_ifs
  · -- The rates start over.
    cases s.rows slot <;> rfl
  · exact h.rows slot

theorem truthful_foldHour {rows : Slot → Option (Row σ)} (h : Truthful est (tx.seen rows) tx.folds)
    {hour : ℤ} {todo : List ℤ} :
    Truthful est ((tx.foldHour est rows hour todo).seen rows)
      (tx.foldHour est rows hour todo).folds := by
  intro slot
  by_cases hsource : tx.isSource hour slot.hostKey
  · by_cases hcovers : slot.Covers hour
    · have hsamples : samples (tx.foldHour est rows hour todo).folds slot =
          samples tx.folds slot ++ [tx.volume hour slot.hostKey] := by
        simp [samples, BaselineTx.foldHour, hsource, hcovers]
      rw [hsamples, Estimator.run_concat, ← h slot]
      simp [BaselineTx.seen, BaselineTx.foldHour, hsource, hcovers]
    · have hsamples : samples (tx.foldHour est rows hour todo).folds slot =
          samples tx.folds slot := by
        simp [samples, BaselineTx.foldHour, hsource, hcovers]
      rw [hsamples, ← h slot]
      simp [BaselineTx.seen, BaselineTx.foldHour, hcovers]
  · have hsamples : samples (tx.foldHour est rows hour todo).folds slot =
        samples tx.folds slot := by
      simp [samples, BaselineTx.foldHour, hsource]
    rw [hsamples, ← h slot]
    simp [BaselineTx.seen, BaselineTx.foldHour, hsource]

/-- What the job has seen is what it leaves in the table. -/
theorem stats_upsert (rows : Slot → Option (Row σ)) (slot : Slot) :
    (tx.upsert rows slot).map Row.stats = tx.seen rows slot := by
  simp only [BaselineTx.upsert, BaselineTx.seen]
  cases tx.writes slot with
  | none => rfl
  | some stats => cases rows slot <;> rfl

/-! ### The diversity job -/

theorem stats_write {tx : DiversityTx σ} {rows : Slot → Option (Row σ)}
    (h : ∀ result ∈ tx.diversity, DiversityTx.isHostKey result.1 = false) (slot : Slot) :
    (tx.write est rows slot).map Row.stats = (rows slot).map Row.stats := by
  unfold DiversityTx.write
  split
  · rfl
  next diversity hresult =>
    have hkey : DiversityTx.isHostKey slot.hostKey = false := by
      simp only [DiversityTx.result] at hresult
      split_ifs at hresult
      obtain ⟨front, back, hmem, -⟩ := List.lookup_eq_some_iff.mp hresult
      exact h (slot.hostKey, diversity) (by simp [hmem])
    rw [hkey]
    split
    · cases rows slot <;> rfl
    · rfl

/-! ### The invariant -/

theorem CountInv.init : CountInv est (State.init : State σ) where
  rows _ := rfl
  baseline _ h := nomatch h

theorem CountInv.commitBaseline (h : CountInv est s) (htx : s.baseline = some tx) :
    CountInv est (s.commitBaseline tx) where
  rows slot := by
    simp only [State.commitBaseline, stats_upsert]
    exact h.baseline tx htx slot
  baseline _ h := nomatch h

theorem CountInv.step {e : Event} (h : CountInv est s) (hkeys : NoHostKeys s e)
    (he : step est s e = some s') : CountInv est s' := by
  cases e with
  | start process now volume =>
    obtain ⟨hnone, rfl⟩ := step_start he
    rcases startBaseline_cases est s process now volume with
      ⟨_, -, -, hs'⟩ | ⟨-, hs'⟩ | ⟨hours, -, -, hs'⟩
    · exact hs' ▸ { h with baseline := by simp [hnone] }
    · exact hs' ▸ { h with baseline := by simp [hnone] }
    · have hs : CountInv est { s with clock := some now } :=
        { h with baseline := by simp [hnone] }
      exact hs' ▸ { h with baseline := by rintro tx ⟨⟩; exact truthful_start hs }
  | foldHour =>
    obtain ⟨tx, hour, todo, htx, -, rfl⟩ := step_foldHour he
    exact { h with baseline := by rintro tx' ⟨⟩; exact truthful_foldHour (h.baseline tx htx) }
  | commit =>
    obtain ⟨tx, htx, -, rfl⟩ := step_commit he
    have hcommit := h.commitBaseline htx
    exact ⟨hcommit.rows, fun _ h => nomatch h⟩
  | commitUnreported =>
    obtain ⟨tx, htx, -, rfl⟩ := step_commitUnreported he
    exact h.commitBaseline htx
  | fail =>
    obtain ⟨tx, -, rfl⟩ := Option.map_eq_some_iff.mp he
    exact { h with baseline := fun _ h => nomatch h }
  | restart process =>
    cases he
    exact { h with baseline := fun tx htx => h.baseline tx (Option.filter_eq_some_iff.mp htx).1 }
  | readDiversity now diversity =>
    obtain rfl := step_readDiversity he
    exact ⟨h.rows, h.baseline⟩
  | commitDiversity =>
    obtain ⟨tx, htx, rfl⟩ := step_commitDiversity he
    have hnone : ∀ result ∈ tx.diversity, DiversityTx.isHostKey result.1 = false := by
      simpa [NoHostKeys, htx] using hkeys
    exact
      { rows := fun slot => by
          simp only [stats_write hnone]
          exact h.rows slot
        baseline := fun btx hbtx slot => by
          simp only [BaselineTx.seen, stats_write hnone]
          exact h.baseline btx hbtx slot }
  | failDiversity =>
    obtain ⟨tx, -, rfl⟩ := Option.map_eq_some_iff.mp he
    exact ⟨h.rows, h.baseline⟩

/-! ### Runs -/

/-- **The number of samples** of a row is the number of hours folded into its rate, over every run
whose diversity jobs write no rows of hosts; so a row that is used has that many hours of data. -/
theorem sampleCount_eq_length {l : List Event}
    (h : Run (Guarded (fun s e => NoHostKeys s e) fun s e s' => step est s e = some s')
      State.init l s) :
    (∀ slot row, s.rows slot = some row → row.rate = (est.run (samples s.folds slot)).1 ∧
      row.sampleCount = (samples s.folds slot).length) ∧
    ∀ hostKey hour day row,
      pickBaseline (s.rows ⟨hostKey, hour, day⟩) (s.rows ⟨hostKey, hour, anyDay⟩) = some row →
      ∃ slot, slot.hostKey = hostKey ∧ slot.hour = hour ∧ s.rows slot = some row ∧
        minSamples ≤ (samples s.folds slot).length := by
  have hinv : CountInv est s := h.invariant (fun _ _ _ hs he => hs.step he.1 he.2) .init
  have hrow (slot : Slot) (row : Row σ) (hslot : s.rows slot = some row) :
      row.rate = (est.run (samples s.folds slot)).1 ∧
        row.sampleCount = (samples s.folds slot).length := by
    have hstats : row.stats = est.run (samples s.folds slot) := by
      rw [← hinv.rows slot]
      simp [hslot]
    have hlength : (est.run (samples s.folds slot)).2 = (samples s.folds slot).length :=
      Estimator.run_snd _
    rw [← hlength, ← hstats]
    exact ⟨rfl, rfl⟩
  refine ⟨hrow, fun hostKey hour day row hpick => ?_⟩
  obtain ⟨found, hfound, hrow'⟩ := List.exists_of_findSome?_eq_some hpick
  obtain ⟨hfound', hmin⟩ := Option.filter_eq_some_iff.mp hrow'
  have hslot : ∃ day, s.rows ⟨hostKey, hour, day⟩ = some row := by
    rcases List.mem_cons.mp hfound with rfl | hfound
    · exact ⟨day, hfound'⟩
    · obtain rfl := List.mem_singleton.mp hfound
      exact ⟨anyDay, hfound'⟩
  obtain ⟨day', hslot⟩ := hslot
  refine ⟨⟨hostKey, hour, day'⟩, rfl, rfl, hslot, ?_⟩
  rw [← (hrow _ row hslot).2]
  exact of_decide_eq_true hmin

/-- A baseline job, and a diversity job that counted for the address. -/
def addressJobs : List Event :=
  firstJob ++ [.readDiversity 23 [("10.0.0.1", 4)], .commitDiversity]

/-- A diversity job that counted for a host. -/
def hostJob : List Event := [.readDiversity 23 [("host:1", 4)], .commitDiversity]

theorem sampleCount_eq_length_addressJobs :
    ∃ s row, Run (fun s e s' => step forgetful s e = some s') State.init addressJobs s ∧
      s.rows ⟨"10.0.0.1", 23, anyDay⟩ = some row ∧ row.avgTemplateCount = 12 / 10 ∧
      row.sampleCount = 1 ∧ (samples s.folds ⟨"10.0.0.1", 23, anyDay⟩).length = 1 := by
  have hend : (addressJobs.foldlM (fun s e => if NoHostKeys s e then step forgetful s e else none)
      State.init).bind (fun s => (s.rows ⟨"10.0.0.1", 23, anyDay⟩).map fun row =>
        (row.avgTemplateCount, row.sampleCount)) = some (12 / 10, 1) := by
    decide +kernel
  obtain ⟨s, hs, hrow⟩ := Option.bind_eq_some_iff.mp hend
  obtain ⟨row, hslot, hcounts⟩ := Option.map_eq_some_iff.mp hrow
  obtain ⟨havg, hcount⟩ := Prod.ext_iff.mp hcounts
  have hrun := Run.guarded_of_foldlM hs
  refine ⟨s, row, hrun.of_guarded, hslot, havg, hcount, ?_⟩
  rw [← ((sampleCount_eq_length hrun).1 _ row hslot).2]
  exact hcount

/-- **One diversity job** with a host gives its rows a first sample, of which nothing was folded
into the rate. -/
theorem sampleCount_hostKey :
    ¬∀ (l : List Event) (s : State Unit),
      Run (fun s e s' => step forgetful s e = some s') State.init l s →
      ∀ slot row, s.rows slot = some row → row.sampleCount = (samples s.folds slot).length := by
  intro h
  have hend : (hostJob.foldlM (step forgetful) State.init).bind
      (fun s => (s.rows ⟨"host:1", 23, anyDay⟩).map fun row =>
        (row.sampleCount, (samples s.folds ⟨"host:1", 23, anyDay⟩).length)) = some (1, 0) := by
    decide +kernel
  obtain ⟨s, hs, hrow⟩ := Option.bind_eq_some_iff.mp hend
  obtain ⟨row, hslot, hcounts⟩ := Option.map_eq_some_iff.mp hrow
  obtain ⟨hcount, hlength⟩ := Prod.ext_iff.mp hcounts
  have heq := h _ s (Run.of_foldlM hs) _ row hslot
  exact absurd (hcount.symm.trans (heq.trans hlength)) (by decide)

end Nodeglow.LogIntelligence
