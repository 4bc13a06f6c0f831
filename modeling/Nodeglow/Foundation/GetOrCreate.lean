import Mathlib.Data.List.Induction
import Mathlib.Data.List.Nodup

/-!
# Events that find or create their row

A program goes through events. Each has a key; it is for the first row with this key, which is
created if there is none, and it changes this row. An event may also be entered in a log, unless the
log has an entry with the same mark already.

So every key is about one row, its slot, which all events of this key change in turn, and other rows
are left alone, also those that have the key of a slot. Where the changes of a slot are idempotent,
so are the events as a whole.

## Main definitions

* `GetOrCreate`, `GetOrCreate.Event`, `GetOrCreate.State` — rows, events and a log.
* `GetOrCreate.slot` — the row that the events of a key are for.
* `GetOrCreate.step`, `GetOrCreate.run` — the program.

## Main results

* `GetOrCreate.slot_run_of_some`, `GetOrCreate.slot_run_of_none` — a slot after the events.
* `GetOrCreate.spare_run_iff` — the other rows.
* `GetOrCreate.run_run` — the same events again.
-/

namespace Nodeglow

/-- Rows with ids and keys, and log entries with marks. -/
structure GetOrCreate (ρ κ η ι : Type*) where
  id : ρ → ℕ
  key : ρ → Option κ
  mark : η → ι

namespace GetOrCreate

variable {ρ κ η ι : Type*}

/-- An event: the row it is for, what it makes of it, and the entry for the log. -/
structure Event (S : GetOrCreate ρ κ η ι) where
  key : κ
  create : ℕ → ρ
  change : ρ → ρ
  entry : ℕ → Option η
  id_create : ∀ n, S.id (create n) = n
  key_create : ∀ n, S.key (create n) = some key
  id_change : ∀ r, S.id (change r) = S.id r
  key_change : ∀ r, S.key (change r) = S.key r

/-- The rows, the next id and the log. -/
@[ext]
structure State (ρ η : Type*) where
  rows : List ρ
  next : ℕ
  log : List η

/-- The ids are distinct, and the next one is not in use. -/
structure Valid (S : GetOrCreate ρ κ η ι) (s : State ρ η) : Prop where
  nodup : (s.rows.map S.id).Nodup
  lt : ∀ r ∈ s.rows, S.id r < s.next

variable {S : GetOrCreate ρ κ η ι} {s : State ρ η} {e e' : Event S} {events : List (Event S)}
  {rows : List ρ} {k : κ} {r r' : ρ}

theorem Valid.eq_of_id (hvalid : Valid S s) (hr : r ∈ s.rows) (hr' : r' ∈ s.rows)
    (h : S.id r = S.id r') : r = r' :=
  List.inj_on_of_nodup_map hvalid.nodup hr hr' h

section Slot

variable [DecidableEq κ]

/-- The row that the events of a key are for. -/
def slot (S : GetOrCreate ρ κ η ι) (rows : List ρ) (k : κ) : Option ρ :=
  rows.find? fun r => S.key r = some k

theorem mem_of_slot (h : S.slot rows k = some r) : r ∈ rows := List.mem_of_find?_eq_some h

theorem key_of_slot (h : S.slot rows k = some r) : S.key r = some k := by
  simpa using List.find?_some h

/-- The events of a key. -/
def ofKey (events : List (Event S)) (k : κ) : List (Event S) := events.filter fun e => e.key = k

/-- What the events of a key make of a row. -/
def changeAll (events : List (Event S)) (k : κ) (r : ρ) : ρ :=
  (ofKey events k).foldl (fun r e => e.change r) r

theorem changeAll_cons : changeAll (e :: events) k r =
    if e.key = k then changeAll events k (e.change r) else changeAll events k r := by
  unfold changeAll ofKey
  rw [List.filter_cons]
  split_ifs with h <;> simp_all

theorem id_changeAll : S.id (changeAll events k r) = S.id r := by
  induction events generalizing r with
  | nil => rfl
  | cons e events ih =>
    rw [changeAll_cons]
    split_ifs
    · rw [ih, e.id_change]
    · exact ih

end Slot

/-! ### The program -/

variable [DecidableEq κ] [DecidableEq ι]

/-- Enter an event in the log. -/
def addEntry (S : GetOrCreate ρ κ η ι) (log : List η) : Option η → List η
  | none => log
  | some x => if log.any fun y => S.mark y = S.mark x then log else log ++ [x]

/-- One event. -/
def step (S : GetOrCreate ρ κ η ι) (s : State ρ η) (e : Event S) : State ρ η :=
  match S.slot s.rows e.key with
  | some r =>
    { s with
      rows := s.rows.map fun r' => if S.id r' = S.id r then e.change r' else r'
      log := S.addEntry s.log (e.entry (S.id r)) }
  | none =>
    { rows := s.rows ++ [e.change (e.create s.next)]
      next := s.next + 1
      log := S.addEntry s.log (e.entry s.next) }

/-- The events one after the other. -/
def run (S : GetOrCreate ρ κ η ι) (s : State ρ η) (events : List (Event S)) : State ρ η :=
  events.foldl S.step s

theorem step_of_some (h : S.slot s.rows e.key = some r) : S.step s e =
    { s with
      rows := s.rows.map fun r' => if S.id r' = S.id r then e.change r' else r'
      log := S.addEntry s.log (e.entry (S.id r)) } := by
  rw [step, h]

theorem step_of_none (h : S.slot s.rows e.key = none) : S.step s e =
    { rows := s.rows ++ [e.change (e.create s.next)]
      next := s.next + 1
      log := S.addEntry s.log (e.entry s.next) } := by
  rw [step, h]

theorem map_id_step_of_some (h : S.slot s.rows e.key = some r) :
    (S.step s e).rows.map S.id = s.rows.map S.id := by
  rw [step_of_some h, List.map_map]
  refine List.map_congr_left fun r' _ => ?_
  dsimp only [Function.comp]
  split_ifs
  · exact e.id_change r'
  · rfl

theorem next_le_step : s.next ≤ (S.step s e).next := by
  unfold step
  split
  · exact Nat.le_refl _
  · exact Nat.le_succ _

theorem Valid.step (hvalid : Valid S s) (e : Event S) : Valid S (S.step s e) := by
  cases h : S.slot s.rows e.key with
  | some r =>
    refine ⟨map_id_step_of_some h ▸ hvalid.nodup, fun r' hr' => ?_⟩
    have hid : S.id r' ∈ s.rows.map S.id := map_id_step_of_some h ▸ List.mem_map_of_mem hr'
    obtain ⟨r'', hr'', heq⟩ := List.mem_map.mp hid
    rw [← heq]
    exact Nat.lt_of_lt_of_le (hvalid.lt r'' hr'') next_le_step
  | none =>
    have hid : S.id (e.change (e.create s.next)) = s.next := (e.id_change _).trans (e.id_create _)
    rw [step_of_none h]
    refine ⟨?_, fun r hr => ?_⟩
    · rw [List.map_append, List.nodup_append]
      refine ⟨hvalid.nodup, List.nodup_singleton _, fun i hi j hj => ?_⟩
      obtain ⟨r, hr, rfl⟩ := List.mem_map.mp hi
      obtain rfl : j = s.next := by simpa [hid] using hj
      exact Nat.ne_of_lt (hvalid.lt r hr)
    · rcases List.mem_append.mp hr with hr | hr
      · exact Nat.lt_succ_of_lt (hvalid.lt r hr)
      · rw [List.mem_singleton.mp hr, hid]
        exact Nat.lt_succ_self s.next

theorem Valid.run (hvalid : Valid S s) (events : List (Event S)) : Valid S (S.run s events) := by
  induction events generalizing s with
  | nil => exact hvalid
  | cons e events ih => exact ih (hvalid.step e)

/-! ### The slots -/

/-- **A slot after an event.** -/
theorem slot_step (hvalid : Valid S s) : S.slot (S.step s e).rows k =
    if k = e.key then some (e.change ((S.slot s.rows k).getD (e.create s.next)))
    else S.slot s.rows k := by
  cases h : S.slot s.rows e.key with
  | some r =>
    have hpred : ∀ r', (decide (S.key (if S.id r' = S.id r then e.change r' else r') = some k)) =
        decide (S.key r' = some k) := by
      intro r'
      split_ifs
      · rw [e.key_change]
      · rfl
    rw [step_of_some h, slot, List.find?_map]
    simp only [Function.comp_def, hpred]
    change Option.map _ (S.slot s.rows k) = _
    split_ifs with hk
    · subst hk
      simp [h]
    · cases hslot : S.slot s.rows k with
      | none => rfl
      | some r' =>
        have hne : S.id r' ≠ S.id r := by
          intro hid
          have heq := hvalid.eq_of_id (mem_of_slot hslot) (mem_of_slot h) hid
          have hkey := key_of_slot hslot
          rw [heq, key_of_slot h] at hkey
          exact hk (Option.some.inj hkey).symm
        rw [Option.map_some, if_neg hne]
  | none =>
    have hkey : S.key (e.change (e.create s.next)) = some e.key :=
      (e.key_change _).trans (e.key_create _)
    rw [step_of_none h, slot, List.find?_append]
    change (S.slot s.rows k).or _ = _
    split_ifs with hk
    · subst hk
      simp [h, hkey]
    · have hne : ¬(S.key (e.change (e.create s.next)) = some k) := by
        rw [hkey]
        exact fun heq => hk (Option.some.inj heq).symm
      simp [hne]

/-- **A slot after the events**: they have changed it in turn. -/
theorem slot_run_of_some (hvalid : Valid S s) (h : S.slot s.rows k = some r) :
    S.slot (S.run s events).rows k = some (changeAll events k r) := by
  induction events generalizing s r with
  | nil => exact h
  | cons e events ih =>
    rw [run, List.foldl_cons]
    have hslot := slot_step (e := e) (k := k) hvalid
    rw [changeAll_cons]
    split_ifs at hslot ⊢ with hk hkey hkey
    · rw [h, Option.getD_some] at hslot
      exact ih (hvalid.step e) hslot
    · exact absurd hk.symm hkey
    · exact absurd hkey.symm hk
    · exact ih (hvalid.step e) (hslot.trans h)

/-- **A slot that is new after the events**: the first one has created it. -/
theorem slot_run_of_none (hvalid : Valid S s) (events : List (Event S))
    (h : S.slot s.rows k = none) :
    (S.slot (S.run s events).rows k = none ∧ ofKey events k = []) ∨
      ∃ e rest n, ofKey events k = e :: rest ∧ s.next ≤ n ∧
        S.slot (S.run s events).rows k = some (changeAll events k (e.create n)) := by
  induction events generalizing s with
  | nil => exact .inl ⟨h, rfl⟩
  | cons e events ih =>
    rw [run, List.foldl_cons]
    have hslot := slot_step (e := e) (k := k) hvalid
    by_cases hk : k = e.key
    · subst hk
      rw [if_pos rfl, h, Option.getD_none] at hslot
      refine .inr ⟨e, ofKey events e.key, s.next, ?_, Nat.le_refl _, ?_⟩
      · rw [ofKey, List.filter_cons, if_pos (by simp)]
        rfl
      · rw [changeAll_cons, if_pos rfl]
        exact slot_run_of_some (hvalid.step e) hslot
    · rw [if_neg hk, h] at hslot
      have hofKey : ofKey (e :: events) k = ofKey events k := by
        rw [ofKey, List.filter_cons, if_neg (by simpa using Ne.symm hk)]
        rfl
      have hchange : ∀ r, changeAll (e :: events) k r = changeAll events k r := fun r => by
        rw [changeAll_cons, if_neg (Ne.symm hk)]
      simp only [hofKey, hchange]
      rcases ih (hvalid.step e) hslot with hnone | ⟨e', rest, n, hcons, hle, hsome⟩
      · exact .inl hnone
      · exact .inr ⟨e', rest, n, hcons, Nat.le_trans next_le_step hle, hsome⟩

/-! ### The other rows -/

/-- A row that no event is for. -/
def Spare (S : GetOrCreate ρ κ η ι) (s : State ρ η) (r : ρ) : Prop :=
  r ∈ s.rows ∧ ∀ k, S.slot s.rows k ≠ some r

theorem spare_step_iff (hvalid : Valid S s) : Spare S (S.step s e) r ↔ Spare S s r := by
  unfold Spare
  simp only [slot_step hvalid]
  cases h : S.slot s.rows e.key with
  | some r₀ =>
    have hr₀ := mem_of_slot h
    have hslot : ∀ k, (if k = e.key then some (e.change ((S.slot s.rows k).getD (e.create s.next)))
        else S.slot s.rows k) = some r ↔
          (k = e.key ∧ e.change r₀ = r) ∨ k ≠ e.key ∧ S.slot s.rows k = some r := by
      intro k
      split_ifs with hk
      · subst hk
        simp [h]
      · simp [hk]
    simp only [ne_eq, hslot, not_or, not_and]
    rw [step_of_some h]
    constructor
    · rintro ⟨hmem, hno⟩
      obtain ⟨r', hr', rfl⟩ := List.mem_map.mp hmem
      split_ifs at hno ⊢ with hid
      · obtain rfl := hvalid.eq_of_id hr' hr₀ hid
        exact absurd rfl ((hno e.key).1 rfl)
      · refine ⟨hr', fun k hk => ?_⟩
        by_cases hkey : k = e.key
        · subst hkey
          obtain rfl := Option.some.inj (hk.symm.trans h)
          exact hid rfl
        · exact (hno k).2 hkey hk
    · rintro ⟨hmem, hno⟩
      have hid : S.id r ≠ S.id r₀ := fun hid => hno e.key (hvalid.eq_of_id hmem hr₀ hid ▸ h)
      refine ⟨List.mem_map.mpr ⟨r, hmem, if_neg hid⟩,
        fun k => ⟨fun _ heq => hid ?_, fun _ => hno k⟩⟩
      rw [← heq, e.id_change]
  | none =>
    have hslot : ∀ k, (if k = e.key then some (e.change ((S.slot s.rows k).getD (e.create s.next)))
        else S.slot s.rows k) = some r ↔
          (k = e.key ∧ e.change (e.create s.next) = r) ∨ S.slot s.rows k = some r := by
      intro k
      split_ifs with hk
      · subst hk
        simp [h]
      · simp [hk]
    simp only [ne_eq, hslot, not_or, not_and]
    rw [step_of_none h]
    constructor
    · rintro ⟨hmem, hno⟩
      refine ⟨?_, fun k => (hno k).2⟩
      rcases List.mem_append.mp hmem with hmem | hmem
      · exact hmem
      · exact absurd (List.mem_singleton.mp hmem).symm ((hno e.key).1 rfl)
    · rintro ⟨hmem, hno⟩
      refine ⟨List.mem_append_left _ hmem, fun k => ⟨fun _ heq => ?_, hno k⟩⟩
      have hlt := hvalid.lt r hmem
      rw [← heq, e.id_change, e.id_create] at hlt
      exact Nat.lt_irrefl _ hlt

/-- **The other rows** are left alone. -/
theorem spare_run_iff (hvalid : Valid S s) : Spare S (S.run s events) r ↔ Spare S s r := by
  induction events generalizing s with
  | nil => exact Iff.rfl
  | cons e events ih => exact (ih (hvalid.step e)).trans (spare_step_iff hvalid)

/-! ### The same events again -/

/-- An event has a row, and its entry is in the log. -/
def Entered (s : State ρ η) (e : Event S) : Prop :=
  ∃ r, S.slot s.rows e.key = some r ∧ ∀ x ∈ e.entry (S.id r), ∃ y ∈ s.log, S.mark y = S.mark x

omit [DecidableEq κ] in
theorem subset_addEntry {log : List η} {o : Option η} : log ⊆ S.addEntry log o := by
  cases o with
  | none => exact List.Subset.refl _
  | some x =>
    unfold addEntry
    dsimp only
    split_ifs
    · exact List.Subset.refl _
    · exact List.subset_append_left _ _

omit [DecidableEq κ] in
theorem exists_mem_addEntry {log : List η} {o : Option η} :
    ∀ x ∈ o, ∃ y ∈ S.addEntry log o, S.mark y = S.mark x := by
  rintro x rfl
  unfold addEntry
  dsimp only
  split_ifs with h
  · obtain ⟨y, hy, hmark⟩ := List.any_eq_true.mp h
    exact ⟨y, hy, by simpa using hmark⟩
  · exact ⟨x, by simp, rfl⟩

theorem log_subset_step : s.log ⊆ (S.step s e).log := by
  unfold step
  split <;> exact subset_addEntry

theorem entered_step_self (hvalid : Valid S s) : Entered (S.step s e) e := by
  refine ⟨_, (slot_step hvalid).trans (if_pos rfl), ?_⟩
  rw [e.id_change]
  cases h : S.slot s.rows e.key with
  | some r =>
    rw [step_of_some h]
    exact exists_mem_addEntry
  | none =>
    rw [step_of_none h, Option.getD_none, e.id_create]
    exact exists_mem_addEntry

theorem Entered.step (hvalid : Valid S s) (h : Entered s e') : Entered (S.step s e) e' := by
  obtain ⟨r, hslot, hentry⟩ := h
  have hlog : ∀ x ∈ e'.entry (S.id r), ∃ y ∈ (S.step s e).log, S.mark y = S.mark x := by
    intro x hx
    obtain ⟨y, hy, hmark⟩ := hentry x hx
    exact ⟨y, log_subset_step hy, hmark⟩
  have hstep := slot_step (e := e) (k := e'.key) hvalid
  rw [hslot, Option.getD_some] at hstep
  split_ifs at hstep
  · refine ⟨_, hstep, ?_⟩
    rwa [e.id_change]
  · exact ⟨r, hstep, hlog⟩

theorem Entered.run (hvalid : Valid S s) (h : Entered s e') : Entered (S.run s events) e' := by
  induction events generalizing s with
  | nil => exact h
  | cons e events ih => exact ih (hvalid.step e) (h.step hvalid)

theorem entered_run (hvalid : Valid S s) (he : e ∈ events) : Entered (S.run s events) e := by
  induction events generalizing s with
  | nil => cases he
  | cons e' events ih =>
    change Entered (S.run (S.step s e') events) e
    rcases List.mem_cons.mp he with rfl | he
    · exact (entered_step_self hvalid).run (hvalid.step e)
    · exact ih (hvalid.step e') he

theorem step_of_entered (h : Entered s e) : (S.step s e).rows.map S.id = s.rows.map S.id ∧
    (S.step s e).next = s.next ∧ (S.step s e).log = s.log := by
  obtain ⟨r, hslot, hentry⟩ := h
  refine ⟨map_id_step_of_some hslot, ?_, ?_⟩
  · rw [step_of_some hslot]
  · rw [step_of_some hslot]
    cases hx : e.entry (S.id r) with
    | none => rfl
    | some x =>
      obtain ⟨y, hy, hmark⟩ := hentry x hx
      exact if_pos (List.any_eq_true.mpr ⟨y, hy, by simpa using hmark⟩)

theorem run_of_entered (hvalid : Valid S s) (h : ∀ e ∈ events, Entered s e) :
    (S.run s events).rows.map S.id = s.rows.map S.id ∧ (S.run s events).next = s.next ∧
      (S.run s events).log = s.log := by
  induction events generalizing s with
  | nil => exact ⟨rfl, rfl, rfl⟩
  | cons e events ih =>
    obtain ⟨he, hevents⟩ := List.forall_mem_cons.mp h
    obtain ⟨hids, hnext, hlog⟩ := step_of_entered he
    obtain ⟨hids', hnext', hlog'⟩ := ih (hvalid.step e) fun e' he' => (hevents e' he').step hvalid
    exact ⟨hids'.trans hids, hnext'.trans hnext, hlog'.trans hlog⟩

/-- Lists with the same distinct ids are equal if one has only rows of the other. -/
theorem eq_of_map_eq {α β : Type*} {f : α → β} {l l' : List α} (hmap : l.map f = l'.map f)
    (hnodup : (l'.map f).Nodup) (hsub : l ⊆ l') : l = l' := by
  induction l generalizing l' with
  | nil => exact (List.map_eq_nil_iff.mp hmap.symm).symm
  | cons a l ih =>
    cases l' with
    | nil => cases hmap
    | cons b l' =>
      obtain ⟨hhead, htail⟩ := List.cons.inj hmap
      rw [List.map_cons, List.nodup_cons] at hnodup
      have hab : a = b := by
        rcases List.mem_cons.mp (hsub List.mem_cons_self) with rfl | hmem
        · rfl
        · exact absurd (hhead ▸ List.mem_map_of_mem hmem) hnodup.1
      subst hab
      congr 1
      refine ih htail hnodup.2 fun x hx => ?_
      rcases List.mem_cons.mp (hsub (List.mem_cons_of_mem a hx)) with rfl | hmem
      · exact absurd (htail ▸ List.mem_map_of_mem hx) hnodup.1
      · exact hmem

/-- **The same events again** change nothing, if what they make of a row is idempotent. -/
theorem run_run (hvalid : Valid S s)
    (hidem : ∀ k r, changeAll events k (changeAll events k r) = changeAll events k r) :
    S.run (S.run s events) events = S.run s events := by
  have hvalid' := hvalid.run events
  have hentered : ∀ e ∈ events, Entered (S.run s events) e := fun e he => entered_run hvalid he
  obtain ⟨hids, hnext, hlog⟩ := run_of_entered hvalid' hentered
  have hsettled : ∀ k r, S.slot (S.run s events).rows k = some r → changeAll events k r = r := by
    intro k r hr
    cases h : S.slot s.rows k with
    | some r₀ =>
      rw [slot_run_of_some hvalid h, Option.some.injEq] at hr
      rw [← hr, hidem]
    | none =>
      rcases slot_run_of_none hvalid events h with ⟨hnone, -⟩ | ⟨e, -, n, -, -, hsome⟩
      · rw [hnone] at hr
        cases hr
      · rw [hsome, Option.some.injEq] at hr
        rw [← hr, hidem]
  refine State.ext (eq_of_map_eq hids hvalid'.nodup fun r hr => ?_) hnext hlog
  by_cases hspare : ∀ k, S.slot (S.run (S.run s events) events).rows k ≠ some r
  · exact ((spare_run_iff hvalid').mp ⟨hr, hspare⟩).1
  · obtain ⟨k, hk⟩ := not_forall_not.mp hspare
    cases h : S.slot (S.run s events).rows k with
    | some r₀ =>
      rw [slot_run_of_some hvalid' h, hsettled k r₀ h, Option.some.injEq] at hk
      exact hk ▸ mem_of_slot h
    | none =>
      rcases slot_run_of_none hvalid' events h with ⟨hnone, -⟩ | ⟨e, rest, -, hcons, -⟩
      · rw [hnone] at hk
        cases hk
      · have he : e ∈ ofKey events k := hcons ▸ List.mem_cons_self
        obtain ⟨he, hkey⟩ := List.mem_filter.mp he
        obtain ⟨r', hr', -⟩ := hentered e he
        rw [of_decide_eq_true hkey, h] at hr'
        cases hr'

end GetOrCreate

end Nodeglow
