import Nodeglow.Backend.LogIntelligence.Baselines

/-!
# Each hour is folded in once

The progress of the baseline job is stored in the transaction that folds the hours in, so an hour is
folded into the baselines of a host at most once, and the hours are folded in in order, whatever
jobs fail and processes restart. No job folds in more than one day of hours. So no hour is left out
as long as the jobs that take effect are at most one day apart; jobs that fail do not count.

## Main results

* `Inv.step` — every step keeps the invariant.
* `hours_folded_once` — the hours of a host increase, and none is left out.
* `hours_skipped_after_failure` — a day of failing jobs leaves hours out.
-/

namespace Nodeglow.LogIntelligence

variable {σ : Type} {est : Estimator σ} {s s' : State σ} {tx : BaselineTx σ}

/-- The hours that were folded into the baselines of a host. -/
def hoursOf (folds : String → List (ℤ × ℕ)) (hostKey : String) : List ℤ :=
  (folds hostKey).map Prod.fst

/-- What holds of a baseline job under way: it has folded in the first of its hours, for each host
from some hour on, and all of them for the hosts that had a baseline. -/
structure TxInv (s : State σ) (tx : BaselineTx σ) : Prop where
  hours : tx.hours = baselineHoursDue s.progress tx.now
  ne_nil : tx.hours ≠ []
  folds : ∃ front, tx.hours = front ++ tx.todo ∧ ∀ hostKey, ∃ new,
    hoursOf tx.folds hostKey = hoursOf s.folds hostKey ++ new ∧ new <:+ front ∧
      (s.folds hostKey ≠ [] → new = front)
  known : ∀ hostKey, tx.folds hostKey ≠ [] → tx.known hostKey
  seen : ∀ hostKey, tx.known hostKey → hostKey ≠ "" ∧
    ∃ hour < 24, ∃ day < 8, (tx.seen s.rows ⟨hostKey, hour, day⟩).isSome

/-- What holds of every reachable state. -/
structure Inv (s : State σ) : Prop where
  fresh : s.progress = none → ∀ hostKey, s.folds hostKey = []
  last : ∀ done, s.progress = some done → ∀ hostKey, s.folds hostKey ≠ [] →
    (hoursOf s.folds hostKey).getLast? = some done
  increasing : ∀ hostKey, (hoursOf s.folds hostKey).Pairwise (· < ·)
  known : ∀ hostKey, s.folds hostKey ≠ [] → s.known hostKey
  mirror : ∀ process m, s.doneThrough process = some m →
    ∃ done, s.progress = some done ∧ m ≤ done
  upToDate : ∀ t, s.completed = some t → ∃ done, s.progress = some done ∧ latestHour t ≤ done
  baseline : ∀ tx, s.baseline = some tx → TxInv s tx

/-- The jobs that take effect begin at most one day apart. -/
def Close (s : State σ) : Event → Bool
  | .commit | .commitUnreported =>
    s.baseline.all fun tx => s.completed.all fun t => tx.now ≤ t + backfillHours * oneHour
  | _ => true

/-- All jobs begin at most one day apart, also those that fail. -/
def Spaced (s : State σ) : Event → Bool
  | .start _ now _ => s.clock.all fun clock => now ≤ clock + backfillHours * oneHour
  | _ => true

/-- No hour of a host is left out. -/
def Consecutive (s : State σ) : Prop :=
  ∀ hostKey, (hoursOf s.folds hostKey).IsChain fun a b => b = a + 1

/-! ### The hosts that are known -/

theorem known_iff {hostKey : String} : s.known hostKey ↔
    hostKey ≠ "" ∧ ∃ hour < 24, ∃ day < 8, (s.rows ⟨hostKey, hour, day⟩).isSome := by
  simp [State.known]

theorem hourOfDay_lt (hour : ℤ) : hourOfDay hour < 24 := by
  simp only [hourOfDay]
  omega

/-! ### The baseline job -/

theorem TxInv.start (h : Inv s) {process : ℕ} {now : ℤ} {volume : ℤ → String → ℕ} {hours : List ℤ}
    (hhours : hours = baselineHoursDue s.progress now) (hne : hours ≠ []) :
    TxInv s (.start est s process now volume hours) where
  hours := hhours
  ne_nil := hne
  folds := by
    refine ⟨[], rfl, fun hostKey => ⟨[], ?_, List.suffix_refl _, fun _ => rfl⟩⟩
    simp only [BaselineTx.start, List.append_nil]
    split_ifs with hnone
    · simp [hoursOf, h.fresh hnone]
    · rfl
  known := by
    intro hostKey hfolds
    apply h.known
    simp only [BaselineTx.start] at hfolds
    split_ifs at hfolds with hnone
    · exact absurd rfl hfolds
    · exact hfolds
  seen := by
    intro hostKey hknown
    obtain ⟨hne, hour, hhour, day, hday, hrow⟩ := known_iff.mp hknown
    refine ⟨hne, hour, hhour, day, hday, ?_⟩
    obtain ⟨row, hrow⟩ := Option.isSome_iff_exists.mp hrow
    simp only [BaselineTx.seen, BaselineTx.start, hrow]
    split_ifs <;> rfl

theorem TxInv.foldHour (h : TxInv s tx) {hour : ℤ} {todo : List ℤ}
    (htodo : tx.todo = hour :: todo) :
    TxInv s (tx.foldHour est s.rows hour todo) where
  hours := h.hours
  ne_nil := h.ne_nil
  folds := by
    obtain ⟨front, hfront, hfolds⟩ := h.folds
    refine ⟨front ++ [hour], by simp [BaselineTx.foldHour, hfront, htodo], fun hostKey => ?_⟩
    obtain ⟨new, hnew, hsuffix, hall⟩ := hfolds hostKey
    by_cases hsource : tx.isSource hour hostKey
    · refine ⟨new ++ [hour], ?_, ?_, fun hold => by rw [hall hold]⟩
      · have hfold : hoursOf (tx.foldHour est s.rows hour todo).folds hostKey =
            hoursOf tx.folds hostKey ++ [hour] := by
          simp [hoursOf, BaselineTx.foldHour, hsource]
        rw [hfold, hnew, List.append_assoc]
      · obtain ⟨t, ht⟩ := hsuffix
        exact ⟨t, by rw [← List.append_assoc, ht]⟩
    · -- What was folded in would make the host a source.
      have hempty : tx.folds hostKey = [] := by
        by_contra hne
        exact hsource (by simp [BaselineTx.isSource, h.known hostKey hne])
      have hnil : hoursOf s.folds hostKey = [] ∧ new = [] := by
        rw [← List.append_eq_nil_iff, ← hnew]
        simp [hoursOf, hempty]
      have hfold : hoursOf (tx.foldHour est s.rows hour todo).folds hostKey = [] := by
        simp [hoursOf, BaselineTx.foldHour, hsource, hempty]
      refine ⟨[], ?_, List.nil_suffix, fun hold => absurd ?_ hold⟩
      · rw [hfold, hnil.1, List.append_nil]
      · exact List.map_eq_nil_iff.mp hnil.1
  known := by
    intro hostKey hfolds
    simp only [BaselineTx.foldHour] at hfolds ⊢
    split_ifs at hfolds with hsource
    · exact hsource
    · simp [BaselineTx.isSource, h.known hostKey hfolds]
  seen := by
    intro hostKey hsource
    simp only [BaselineTx.foldHour] at hsource
    refine ⟨?_, hourOfDay hour, hourOfDay_lt hour, anyDay, by decide, ?_⟩
    · simp only [BaselineTx.isSource, Bool.or_eq_true, Bool.and_eq_true, decide_eq_true_eq]
        at hsource
      rcases hsource with hknown | hnew
      · exact (h.seen hostKey hknown).1
      · exact hnew.1
    · simp [BaselineTx.seen, BaselineTx.foldHour, Slot.Covers, hsource]

/-- Steps that keep the progress, and the rows there are, keep what holds of the job. -/
theorem TxInv.of_rows (h : TxInv s tx) (hprogress : s'.progress = s.progress)
    (hfolds : s'.folds = s.folds) (hrows : ∀ slot, (s.rows slot).isSome → (s'.rows slot).isSome) :
    TxInv s' tx where
  hours := by rw [h.hours, hprogress]
  ne_nil := h.ne_nil
  folds := by rw [hfolds]; exact h.folds
  known := h.known
  seen := by
    intro hostKey hknown
    obtain ⟨hne, hour, hhour, day, hday, hseen⟩ := h.seen hostKey hknown
    refine ⟨hne, hour, hhour, day, hday, ?_⟩
    rw [BaselineTx.seen, Option.isSome_or, Option.isSome_map, Bool.or_eq_true] at hseen ⊢
    exact hseen.imp_right (hrows _)

/-- At the end of the job, a host that has a baseline has all of its hours. -/
theorem TxInv.exists_suffix (h : TxInv s tx) (htodo : tx.todo = []) (hostKey : String) :
    ∃ new, hoursOf tx.folds hostKey = hoursOf s.folds hostKey ++ new ∧ new <:+ tx.hours ∧
      (s.folds hostKey ≠ [] → new = tx.hours) := by
  obtain ⟨front, hfront, hfolds⟩ := h.folds
  rw [htodo, List.append_nil] at hfront
  exact hfront ▸ hfolds hostKey

/-! ### The invariant -/

theorem Inv.init : Inv (State.init : State σ) where
  fresh _ _ := rfl
  last _ _ _ h := absurd rfl h
  increasing _ := .nil
  known _ h := absurd rfl h
  mirror _ _ h := nomatch h
  upToDate _ h := nomatch h
  baseline _ h := nomatch h

/-- All hours that were folded in are over when the progress is reached. -/
theorem Inv.le_progress (h : Inv s) {done : ℤ} (hdone : s.progress = some done) {hostKey : String}
    {hour : ℤ} (hhour : hour ∈ hoursOf s.folds hostKey) : hour ≤ done := by
  have hne : s.folds hostKey ≠ [] := by
    rintro hnil
    simp [hoursOf, hnil] at hhour
  obtain ⟨front, hfront⟩ := List.getLast?_eq_some_iff.mp (h.last done hdone hostKey hne)
  have hincreasing := h.increasing hostKey
  rw [hfront] at hincreasing hhour
  rcases List.mem_append.mp hhour with hmem | hmem
  · exact ((List.pairwise_append.mp hincreasing).2.2 hour hmem done (by simp)).le
  · exact (List.mem_singleton.mp hmem).le

theorem Inv.startBaseline (h : Inv s) (hnone : s.baseline = none) {process : ℕ} {now : ℤ}
    {volume : ℤ → String → ℕ} : Inv (s.startBaseline est process now volume) := by
  rcases startBaseline_cases est s process now volume with
    ⟨m, hm, hnil, hs'⟩ | ⟨hnil, hs'⟩ | ⟨hours, hdue, hne, hs'⟩
  · obtain ⟨done, hdone, hle⟩ := h.mirror process m hm
    obtain ⟨m', hm', hlatest⟩ := baselineHoursDue_eq_nil hnil
    cases hm'
    rw [hs']
    exact
      { h with
        upToDate := by rintro t ⟨⟩; exact ⟨done, hdone, hlatest.trans hle⟩
        baseline := by simp [hnone] }
  · obtain ⟨done, hdone, hlatest⟩ := baselineHoursDue_eq_nil hnil
    rw [hs']
    exact
      { h with
        mirror := by
          intro process' m hm
          simp only [hdone, Option.some_or, Function.update_apply] at hm
          split_ifs at hm
          · cases hm
            exact ⟨done, hdone, le_refl _⟩
          · exact h.mirror process' m hm
        upToDate := by rintro t ⟨⟩; exact ⟨done, hdone, hlatest⟩
        baseline := by simp [hnone] }
  · have hs : Inv { s with clock := some now } :=
      { h with baseline := by simp [hnone] }
    rw [hs']
    exact
      { h with
        baseline := by
          rintro tx ⟨⟩
          exact (TxInv.start hs hdue.symm hne).of_rows rfl rfl fun _ => id }

theorem Inv.commitBaseline (h : Inv s) (htx : s.baseline = some tx) (htodo : tx.todo = []) :
    Inv (s.commitBaseline tx) := by
  have hinv := h.baseline tx htx
  have hlast : tx.hours.getLast? = some (latestHour tx.now) := by
    rw [hinv.hours]
    exact getLast?_baselineHoursDue (hinv.hours ▸ hinv.ne_nil)
  exact
    { fresh := by simp [State.commitBaseline, hlast]
      last := by
        rintro done hdone hostKey hfolds
        obtain ⟨new, hnew, hsuffix, hall⟩ := hinv.exists_suffix htodo hostKey
        have hne : new ≠ [] := by
          rintro rfl
          by_cases hold : s.folds hostKey = []
          · have hempty : tx.folds hostKey = [] := by simpa [hoursOf, hold] using hnew
            exact hfolds hempty
          · exact hinv.ne_nil (hall hold).symm
        obtain ⟨t, ht⟩ := hsuffix
        simp only [State.commitBaseline] at hdone ⊢
        rw [hnew, List.getLast?_append_of_ne_nil _ hne, ← hdone, ← ht,
          List.getLast?_append_of_ne_nil _ hne]
      increasing := by
        intro hostKey
        obtain ⟨new, hnew, hsuffix, -⟩ := hinv.exists_suffix htodo hostKey
        simp only [State.commitBaseline]
        rw [hnew, List.pairwise_append]
        refine ⟨h.increasing hostKey, ?_, fun a ha b hb => ?_⟩
        · have hchain : tx.hours.IsChain (· < ·) :=
            (hinv.hours ▸ isChain_baselineHoursDue).imp fun a b hb => by omega
          exact (hchain.suffix hsuffix).pairwise
        · cases hdone : s.progress with
          | none => simp [hoursOf, h.fresh hdone] at ha
          | some done =>
            have hb' := hinv.hours ▸ hsuffix.subset hb
            rw [hdone] at hb'
            exact (h.le_progress hdone ha).trans_lt (lt_of_mem_baselineHoursDue hb')
      known := by
        intro hostKey hfolds
        obtain ⟨hne, hour, hhour, day, hday, hseen⟩ := hinv.seen hostKey (hinv.known hostKey hfolds)
        refine known_iff.mpr ⟨hne, hour, hhour, day, hday, ?_⟩
        simp only [State.commitBaseline, BaselineTx.upsert]
        cases hwrites : tx.writes ⟨hostKey, hour, day⟩ with
        | none => simpa [BaselineTx.seen, hwrites] using hseen
        | some stats => cases s.rows ⟨hostKey, hour, day⟩ <;> rfl
      mirror := by
        intro process m hm
        obtain ⟨done, hdone, hle⟩ := h.mirror process m hm
        obtain ⟨first, hfirst⟩ := List.exists_mem_of_ne_nil _ hinv.ne_nil
        rw [hinv.hours, hdone] at hfirst
        refine ⟨latestHour tx.now, hlast, ?_⟩
        exact hle.trans ((lt_of_mem_baselineHoursDue hfirst).le.trans (mem_baselineHoursDue hfirst))
      upToDate := by
        rintro t ⟨⟩
        exact ⟨_, hlast, le_refl _⟩
      baseline := fun _ h => nomatch h }

/-- **Every step** keeps the invariant. -/
theorem Inv.step {e : Event} (h : Inv s) (he : step est s e = some s') : Inv s' := by
  cases e with
  | start process now volume =>
    obtain ⟨hnone, rfl⟩ := step_start he
    exact h.startBaseline hnone
  | foldHour =>
    obtain ⟨tx, hour, todo, htx, htodo, rfl⟩ := step_foldHour he
    exact
      { h with
        baseline := by
          rintro tx' ⟨⟩
          exact ((h.baseline tx htx).foldHour htodo).of_rows rfl rfl fun _ => id }
  | commit =>
    obtain ⟨tx, htx, htodo, rfl⟩ := step_commit he
    have hcommit := h.commitBaseline htx htodo
    exact
      { hcommit with
        mirror := by
          intro process m hm
          simp only [Function.update_apply] at hm
          split_ifs at hm
          · exact ⟨m, hm, le_refl _⟩
          · exact hcommit.mirror process m hm
        baseline := fun _ h => nomatch h }
  | commitUnreported =>
    obtain ⟨tx, htx, htodo, rfl⟩ := step_commitUnreported he
    exact h.commitBaseline htx htodo
  | fail =>
    obtain ⟨tx, -, rfl⟩ := Option.map_eq_some_iff.mp he
    exact { h with baseline := fun _ h => nomatch h }
  | restart process =>
    cases he
    exact
      { h with
        mirror := by
          intro process' m hm
          simp only [Function.update_apply] at hm
          split_ifs at hm
          exact h.mirror process' m hm
        baseline := by
          intro tx htx
          exact (h.baseline tx (Option.filter_eq_some_iff.mp htx).1).of_rows rfl rfl fun _ => id }
  | readDiversity now diversity =>
    obtain rfl := step_readDiversity he
    exact { h with baseline := fun tx htx => (h.baseline tx htx).of_rows rfl rfl fun _ => id }
  | commitDiversity =>
    obtain ⟨tx, -, rfl⟩ := step_commitDiversity he
    have hrows (slot : Slot) (hrow : (s.rows slot).isSome) : (tx.write est s.rows slot).isSome := by
      unfold DiversityTx.write
      split
      · exact hrow
      · split
        · simpa using hrow
        · split_ifs
          · rfl
          · exact hrow
    exact
      { h with
        known := by
          intro hostKey hfolds
          obtain ⟨hne, hour, hhour, day, hday, hrow⟩ := known_iff.mp (h.known hostKey hfolds)
          exact known_iff.mpr ⟨hne, hour, hhour, day, hday, hrows _ hrow⟩
        baseline := fun tx htx => (h.baseline tx htx).of_rows rfl rfl hrows }
  | failDiversity =>
    obtain ⟨tx, -, rfl⟩ := Option.map_eq_some_iff.mp he
    exact
      { h with
        baseline := fun tx htx => (h.baseline tx htx).of_rows rfl rfl fun _ => id }

/-! ### Hours that are left out -/

/-- Only a commit of the baseline job folds hours in. -/
theorem folds_step {e : Event} (he : step est s e = some s') :
    (s'.folds = s.folds ∧ s'.progress = s.progress ∧ (s.completed ≠ none → s'.completed ≠ none)) ∨
    (e = .commit ∨ e = .commitUnreported) ∧ ∃ tx, s.baseline = some tx ∧ tx.todo = [] ∧
      s'.folds = tx.folds ∧ s'.completed = some tx.now := by
  cases e with
  | start process now volume =>
    obtain ⟨-, rfl⟩ := step_start he
    left
    rcases startBaseline_cases est s process now volume with
      ⟨_, -, -, hs'⟩ | ⟨-, hs'⟩ | ⟨_, -, -, hs'⟩
    · exact ⟨by rw [hs'], by rw [hs'], by simp [hs']⟩
    · exact ⟨by rw [hs'], by rw [hs'], by simp [hs']⟩
    · exact ⟨by rw [hs'], by rw [hs'], by simp [hs']⟩
  | foldHour =>
    obtain ⟨tx, hour, todo, -, -, rfl⟩ := step_foldHour he
    exact .inl ⟨rfl, rfl, id⟩
  | commit =>
    obtain ⟨tx, htx, htodo, rfl⟩ := step_commit he
    exact .inr ⟨.inl rfl, tx, htx, htodo, rfl, rfl⟩
  | commitUnreported =>
    obtain ⟨tx, htx, htodo, rfl⟩ := step_commitUnreported he
    exact .inr ⟨.inr rfl, tx, htx, htodo, rfl, rfl⟩
  | restart =>
    cases he
    exact .inl ⟨rfl, rfl, id⟩
  | readDiversity =>
    obtain rfl := step_readDiversity he
    exact .inl ⟨rfl, rfl, id⟩
  | commitDiversity =>
    obtain ⟨tx, -, rfl⟩ := step_commitDiversity he
    exact .inl ⟨rfl, rfl, id⟩
  | fail | failDiversity =>
    obtain ⟨tx, -, rfl⟩ := Option.map_eq_some_iff.mp he
    exact .inl ⟨rfl, rfl, id⟩

theorem latestHour_le {now t : ℤ} (h : now ≤ t + backfillHours * oneHour) :
    latestHour now ≤ latestHour t + backfillHours := by
  simp only [latestHour, settle, backfillHours, oneHour] at h ⊢
  omega

/-- What holds of every state reached by steps that are close. -/
structure CloseInv (s : State σ) : Prop where
  inv : Inv s
  completed : s.progress ≠ none → s.completed ≠ none
  consecutive : Consecutive s

/-- A job that takes effect within a day goes on with the next hour. -/
theorem CloseInv.consecutive_commit (h : CloseInv s) (htx : s.baseline = some tx)
    (htodo : tx.todo = [])
    (hclose : ∀ t, s.completed = some t → tx.now ≤ t + backfillHours * oneHour) (hostKey : String) :
    (hoursOf tx.folds hostKey).IsChain fun a b => b = a + 1 := by
  have hinv := h.inv.baseline tx htx
  obtain ⟨new, hnew, hsuffix, hall⟩ := hinv.exists_suffix htodo hostKey
  have hchain : tx.hours.IsChain fun a b => b = a + 1 := hinv.hours ▸ isChain_baselineHoursDue
  rw [hnew]
  refine (h.consecutive hostKey).append (hchain.suffix hsuffix) fun a ha b hb => ?_
  have hold : s.folds hostKey ≠ [] := by
    intro hnil
    simp [hoursOf, hnil] at ha
  cases hdone : s.progress with
  | none => exact absurd (h.inv.fresh hdone hostKey) hold
  | some done =>
    obtain ⟨t, ht⟩ := Option.ne_none_iff_exists'.mp (h.completed (by simp [hdone]))
    obtain ⟨done', hdone', hlatest⟩ := h.inv.upToDate t ht
    obtain rfl : done' = done := Option.some.inj (hdone'.symm.trans hdone)
    have hlast : a = done' := by
      rw [h.inv.last done' hdone hostKey hold] at ha
      exact (Option.some.inj ha).symm
    have hfirst : tx.hours.head? = some (done' + 1) := by
      rw [hinv.hours, hdone]
      refine head?_baselineHoursDue ?_ ?_
      · exact (latestHour_le (hclose t ht)).trans (by omega)
      · rw [← hdone, ← hinv.hours]
        exact hinv.ne_nil
    rw [hall hold, hfirst] at hb
    rw [hlast, ← Option.some.inj hb]

theorem CloseInv.step {e : Event} (h : CloseInv s) (hclose : Close s e)
    (he : step est s e = some s') : CloseInv s' := by
  rcases folds_step he with
    ⟨hfolds, hprogress, hcompleted⟩ | ⟨hcommit, tx, htx, htodo, hfolds, hnow⟩
  · exact
      { inv := h.inv.step he
        completed := fun hne => hcompleted (h.completed (hprogress ▸ hne))
        consecutive := by
          intro hostKey
          rw [hfolds]
          exact h.consecutive hostKey }
  · have hwithin : ∀ t, s.completed = some t → tx.now ≤ t + backfillHours * oneHour := by
      intro t ht
      rcases hcommit with rfl | rfl <;> simpa [Close, htx, ht] using hclose
    exact
      { inv := h.inv.step he
        completed := fun _ => by simp [hnow]
        consecutive := by
          intro hostKey
          rw [hfolds]
          exact h.consecutive_commit htx htodo hwithin hostKey }

/-! ### Runs -/

/-- **Each hour is folded in once**: over every run, whatever fails, the hours of a host increase,
and reach the last hour that was completed when a job last took effect. As long as the jobs that
take effect are at most a day apart, no hour is left out. -/
theorem hours_folded_once {l : List Event}
    (h : Run (fun s e s' => step est s e = some s') State.init l s) :
    (∀ hostKey, (hoursOf s.folds hostKey).Pairwise (· < ·)) ∧
      (∀ t, s.completed = some t → ∀ hostKey, s.folds hostKey ≠ [] →
        ∃ hour ∈ (hoursOf s.folds hostKey).getLast?, latestHour t ≤ hour) ∧
      (Run (Guarded (fun s e => Close s e) fun s e s' => step est s e = some s') State.init l s →
        Consecutive s) := by
  have hinv : Inv s := h.invariant (fun _ _ _ hs he => hs.step he) .init
  refine ⟨hinv.increasing, fun t ht hostKey hfolds => ?_, fun hclose => ?_⟩
  · obtain ⟨done, hdone, hle⟩ := hinv.upToDate t ht
    exact ⟨done, hinv.last done hdone hostKey hfolds, hle⟩
  · have hstart : CloseInv (State.init : State σ) :=
      ⟨.init, fun hne => absurd rfl hne, fun _ => .nil⟩
    exact (hclose.invariant (fun _ _ _ hs he => hs.step he.1 he.2) hstart).consecutive

/-- An estimator that forgets its samples. -/
def forgetful : Estimator Unit := ⟨(), fun _ _ _ => ()⟩

/-- The message counts of a host that sent its first message in one hour. -/
def firstSeen (hostKey : String) (hour h : ℤ) (k : String) : ℕ :=
  if k = hostKey ∧ h = hour then 1 else 0

/-- A job that takes effect, in the hour 24, with its 24 hours. -/
def firstJob : List Event :=
  [.start 0 (settle + 24 * oneHour) (firstSeen "10.0.0.1" 23)] ++ List.replicate 24 .foldHour ++
    [.commit]

/-- A day later a job fails, and another day later the next one takes effect. -/
def afterFailure : List Event :=
  firstJob ++ [.start 0 (settle + 48 * oneHour) (firstSeen "10.0.0.1" 23), .fail,
    .start 0 (settle + 72 * oneHour) (firstSeen "10.0.0.1" 23)] ++ List.replicate 24 .foldHour ++
    [.commit]

theorem hours_folded_once_firstJob :
    ∃ s, Run (fun s e s' => step forgetful s e = some s') State.init firstJob s ∧
      hoursOf s.folds "10.0.0.1" = [23] ∧ s.completed = some (settle + 24 * oneHour) ∧
      (∀ hostKey, (hoursOf s.folds hostKey).Pairwise (· < ·)) ∧ Consecutive s := by
  have hend : (firstJob.foldlM (fun s e => if Close s e then step forgetful s e else none)
      State.init).map (fun s => (hoursOf s.folds "10.0.0.1", s.completed)) =
      some ([23], some (settle + 24 * oneHour)) := by
    decide
  obtain ⟨s, hs, hhours⟩ := Option.map_eq_some_iff.mp hend
  have hclose := Run.guarded_of_foldlM hs
  obtain ⟨hincreasing, -, hconsecutive⟩ := hours_folded_once hclose.of_guarded
  exact ⟨s, hclose.of_guarded, (Prod.ext_iff.mp hhours).1, (Prod.ext_iff.mp hhours).2,
    hincreasing, hconsecutive hclose⟩

/-- **A failing job** between two that take effect leaves the hours of a day out, although all jobs
are at most a day apart. -/
theorem hours_skipped_after_failure :
    ¬∀ (l : List Event) (s : State Unit),
      Run (Guarded (fun s e => Spaced s e) fun s e s' => step forgetful s e = some s')
        State.init l s → Consecutive s := by
  intro h
  have hend : (afterFailure.foldlM (fun s e => if Spaced s e then step forgetful s e else none)
      State.init).map (fun s => hoursOf s.folds "10.0.0.1") =
      some (23 :: (List.range 24).map fun i : ℕ => 48 + (i : ℤ)) := by
    decide +kernel
  obtain ⟨s, hs, hhours⟩ := Option.map_eq_some_iff.mp hend
  have hconsecutive := h _ s (Run.guarded_of_foldlM hs) "10.0.0.1"
  rw [hhours] at hconsecutive
  revert hconsecutive
  decide

end Nodeglow.LogIntelligence
