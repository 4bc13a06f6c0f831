import Mathlib.Algebra.BigOperators.Ring.Finset
import Mathlib.Algebra.Order.BigOperators.Group.Finset
import Mathlib.Data.List.TakeWhile
import Nodeglow.Backend.Jobs.FairShareLimiter

/-!
# Safety and work conservation of the fair-share limiter

The fields of the limiter and the phases of its callers stay consistent through every order of
calls, cancellations and releases (`Inv`): a tenant holds as many slots as it has calls that own
one, the order lists the tenants with a queue, and every live waiter stands in the queue of its
tenant. No slot is free while a tenant below its cap has a live waiter (`Conserving`), since every
event that frees a slot or adds a waiter ends with `_dispatch`, and `_dispatch` stops only when
nobody can be served (`conserving_dispatch`).

## Main results

* `Inv.turn`, `Inv.dispatch`, `conserving_dispatch`.
* `Inv.step` — one event.
* `safety` — every reachable state.

Source: `backend/services/tenant_jobs.py`, lines 605–682.
-/

namespace Nodeglow.FairShare

variable {Tenant : Type} [DecidableEq Tenant] (L : Setup Tenant)

/-- The invariant of the limiter and its callers. -/
structure Inv (s : State Tenant) : Prop where
  order_nodup : s.order.Nodup
  mem_order : ∀ t, t ∈ s.order ↔ (s.waiters t).isSome
  known : ∀ n < s.calls, s.tenant n ≠ none
  fresh : ∀ n, s.calls ≤ n → s.tenant n = none ∧ s.fut n = .pending ∧ s.phase n = .idle
  queued : ∀ t, ∀ n ∈ s.queue t, s.tenant n = some t ∧ s.fut n ≠ .granted
  queue_sorted : ∀ t, (s.queue t).Pairwise (· < ·)
  live_queued : ∀ t n, s.tenant n = some t → s.Live n → n ∈ s.queue t
  pending_waiting : ∀ n, s.tenant n ≠ none → s.fut n = .pending → s.phase n = .waiting
  granted_of_phase : ∀ n, s.phase n = .cancelling ∨ s.phase n = .holding → s.fut n = .granted
  held_eq : ∀ t, s.held t = s.owned t
  inUse_eq : s.inUse = s.owners
  held_le : ∀ t, s.held t ≤ L.cap t
  inUse_le : s.inUse ≤ L.total

/-- No slot is free while a tenant below its cap has a live waiter. -/
def Conserving (s : State Tenant) : Prop :=
  s.inUse < L.total → ∀ t, s.held t < L.cap t → ¬s.HasLiveWaiter t

variable {L}

omit [DecidableEq Tenant] in
theorem Setup.total_pos (L : Setup Tenant) : 0 < L.total := lt_max_of_lt_left one_pos

omit [DecidableEq Tenant] in
theorem Setup.cap_pos (L : Setup Tenant) (t : Tenant) : 0 < L.cap t := by
  have htotal := L.total_pos
  simp only [Setup.cap]
  split_ifs with hcap
  · exact lt_min htotal hcap
  · exact htotal

theorem inv_init : Inv L (State.init Tenant) where
  order_nodup := .nil
  mem_order _ := by simp [State.init]
  known _ h := absurd h (Nat.not_lt_zero _)
  fresh _ _ := ⟨rfl, rfl, rfl⟩
  queued _ _ h := absurd h List.not_mem_nil
  queue_sorted _ := .nil
  live_queued _ _ h := absurd h (by simp [State.init])
  pending_waiting _ h := absurd rfl h
  granted_of_phase _ h := absurd h (by simp [State.init])
  held_eq _ := by simp [State.init, State.owned]
  inUse_eq := rfl
  held_le t := (L.cap_pos t).le
  inUse_le := L.total_pos.le

omit [DecidableEq Tenant] in
theorem conserving_init : Conserving L (State.init Tenant) := by
  rintro - t - ⟨n, htenant, -⟩
  simp [State.init] at htenant

/-! ### Counting the slots -/

/-- The state `s'` differs from `s` in that the call `n` owns a slot. -/
structure Gains (s s' : State Tenant) (n : ℕ) : Prop where
  calls_eq : s'.calls = s.calls
  tenant_eq : s'.tenant = s.tenant
  lt_calls : n < s.calls
  not_owns : ¬s.Owns n
  owns : s'.Owns n
  owns_iff : ∀ m ≠ n, s'.Owns m ↔ s.Owns m

section Count

variable {s s' : State Tenant} {n : ℕ}

omit [DecidableEq Tenant] in
theorem Gains.card_filter (h : Gains s s' n) (p : ℕ → Prop) [DecidablePred p] :
    ((Finset.range s'.calls).filter fun m => p m ∧ s'.Owns m).card =
      ((Finset.range s.calls).filter fun m => p m ∧ s.Owns m).card + if p n then 1 else 0 := by
  rw [h.calls_eq]
  split_ifs with hp
  · rw [← Finset.card_insert_of_notMem (a := n) (by simp [h.not_owns])]
    congr 1
    ext m
    by_cases hm : m = n
    · simp [hm, h.lt_calls, hp, h.owns]
    · simp [hm, h.owns_iff m hm]
  · rw [add_zero]
    congr 1
    ext m
    by_cases hm : m = n
    · simp [hm, hp]
    · simp [h.owns_iff m hm]

omit [DecidableEq Tenant] in
theorem Gains.owners (h : Gains s s' n) : s'.owners = s.owners + 1 := by
  simpa [State.owners] using h.card_filter fun _ => True

theorem Gains.owned (h : Gains s s' n) (t : Tenant) :
    s'.owned t = s.owned t + if s.tenant n = some t then 1 else 0 := by
  simpa [State.owned, h.tenant_eq] using h.card_filter fun m => s.tenant m = some t

omit [DecidableEq Tenant] in
theorem owners_congr (hown : ∀ m, s'.Owns m ↔ s.Owns m) (hcalls : s'.calls = s.calls) :
    s'.owners = s.owners := by
  simp [State.owners, hcalls, hown]

theorem owned_congr (hown : ∀ m, s'.Owns m ↔ s.Owns m) (hcalls : s'.calls = s.calls)
    (htenant : s'.tenant = s.tenant) (t : Tenant) : s'.owned t = s.owned t := by
  simp [State.owned, hcalls, htenant, hown]

/-- The slots held are the slots in use. -/
theorem Inv.sum_held (h : Inv L s) :
    ∃ S : Finset Tenant, (∀ t, s.held t ≠ 0 → t ∈ S) ∧ ∑ t ∈ S, s.held t = s.inUse := by
  let T : Finset (Option Tenant) := (Finset.range s.calls).image s.tenant
  have hnone : none ∉ T := by
    rw [Finset.mem_image]
    rintro ⟨n, hn, htenant⟩
    exact h.known n (Finset.mem_range.mp hn) htenant
  refine ⟨T.eraseNone, fun t ht => ?_, ?_⟩
  · rw [h.held_eq t, Nat.cast_ne_zero, State.owned, Finset.card_ne_zero] at ht
    obtain ⟨n, hn⟩ := ht
    rw [Finset.mem_filter] at hn
    exact Finset.mem_eraseNone.mpr (Finset.mem_image.mpr ⟨n, hn.1, hn.2.1⟩)
  · -- the owners are counted by the tenants of their calls
    have hmaps : Set.MapsTo s.tenant ((Finset.range s.calls).filter fun n => s.Owns n : Finset ℕ)
        (T : Set (Option Tenant)) := by
      intro n hn
      exact Finset.mem_image_of_mem _ (Finset.mem_filter.mp hn).1
    have hcard := Finset.card_eq_sum_card_fiberwise hmaps
    rw [← Finset.erase_eq_of_notMem hnone, ← Finset.map_some_eraseNone, Finset.sum_map] at hcard
    rw [h.inUse_eq, State.owners, hcard, Nat.cast_sum]
    refine Finset.sum_congr rfl fun t _ => ?_
    rw [h.held_eq t, State.owned, Finset.filter_filter]
    simp only [and_comm, Function.Embedding.some_apply]

end Count

/-! ### Turns -/

section Turn

variable {s : State Tenant} {tid : Tenant} {rest : List Tenant}

omit [DecidableEq Tenant] in
theorem State.pruned_sublist (s : State Tenant) (t : Tenant) : (s.pruned t).Sublist (s.queue t) :=
  List.dropWhile_sublist _

theorem mem_dropWhile_of_not {p : ℕ → Bool} {l : List ℕ} {n : ℕ} (hn : n ∈ l) (hp : p n = false) :
    n ∈ l.dropWhile p := by
  rw [← List.takeWhile_append_dropWhile (p := p) (l := l), List.mem_append] at hn
  refine hn.resolve_left fun hmem => ?_
  have := List.mem_takeWhile_imp hmem
  simp [hp] at this

/-- Only futures that are done are pruned. -/
theorem Inv.mem_pruned (h : Inv L s) {t : Tenant} {n : ℕ} (htenant : s.tenant n = some t)
    (hlive : s.Live n) : n ∈ s.pruned t :=
  mem_dropWhile_of_not (h.live_queued t n htenant hlive) (by simp [FutStatus.done, hlive.2])

omit [DecidableEq Tenant] in
theorem State.pending_of_pruned {n : ℕ} {queue : List ℕ} (h : s.pruned tid = n :: queue) :
    s.fut n = .pending := by
  have hnot := List.head?_dropWhile_not (fun n => (s.fut n).done) (s.queue tid)
  rw [← State.pruned, h] at hnot
  simpa [FutStatus.done] using hnot

/-- Without its front the order still lists the tenants with a queue, if that tenant's is gone. -/
theorem Inv.order_drop (h : Inv L s) (horder : s.order = tid :: rest) :
    rest.Nodup ∧ ∀ t, t ∈ rest ↔ (Function.update s.waiters tid none t).isSome := by
  have hnodup := h.order_nodup
  rw [horder, List.nodup_cons] at hnodup
  refine ⟨hnodup.2, fun t => ?_⟩
  by_cases ht : t = tid
  · simp [ht, hnodup.1]
  · rw [Function.update_of_ne ht, ← h.mem_order t, horder, List.mem_cons, or_iff_right ht]

theorem Inv.order_rotate (h : Inv L s) (horder : s.order = tid :: rest) (queue : List ℕ) :
    (rest ++ [tid]).Nodup ∧
      ∀ t, t ∈ rest ++ [tid] ↔ (Function.update s.waiters tid (some queue) t).isSome := by
  have hnodup := h.order_nodup
  rw [horder] at hnodup
  refine ⟨(List.perm_append_singleton tid rest).nodup_iff.mpr hnodup, fun t => ?_⟩
  rw [(List.perm_append_singleton tid rest).mem_iff, ← horder, h.mem_order t]
  by_cases ht : t = tid
  · subst ht
    have hmem : t ∈ s.order := horder ▸ List.mem_cons_self
    simp [(h.mem_order t).mp hmem]
  · rw [Function.update_of_ne ht]

/-- A queue may lose futures that are not live. -/
theorem Inv.requeue (h : Inv L s) {w : Option (List ℕ)} {order : List Tenant}
    (hsub : (w.getD []).Sublist (s.queue tid))
    (hlive : ∀ n, s.tenant n = some tid → s.Live n → n ∈ w.getD [])
    (horder : order.Nodup ∧ ∀ t, t ∈ order ↔ (Function.update s.waiters tid w t).isSome) :
    Inv L { s with order := order, waiters := Function.update s.waiters tid w } :=
  { h with
    order_nodup := horder.1
    mem_order := horder.2
    queued := fun t n hn => by
      by_cases ht : t = tid
      · subst ht
        simp only [State.queue, Function.update_self] at hn
        exact h.queued t n (hsub.subset hn)
      · simp only [State.queue, Function.update_of_ne ht] at hn
        exact h.queued t n hn
    queue_sorted := fun t => by
      by_cases ht : t = tid
      · subst ht
        simpa only [State.queue, Function.update_self] using (h.queue_sorted t).sublist hsub
      · simpa only [State.queue, Function.update_of_ne ht] using h.queue_sorted t
    live_queued := fun t n htenant hn => by
      by_cases ht : t = tid
      · subst ht
        simpa only [State.queue, Function.update_self] using hlive n htenant hn
      · simpa only [State.queue, Function.update_of_ne ht] using h.live_queued t n htenant hn }

/-- A tenant with a live waiter stands in the order. -/
theorem Inv.mem_order_of_hasLiveWaiter (h : Inv L s) {t : Tenant} (hlive : s.HasLiveWaiter t) :
    t ∈ s.order := by
  obtain ⟨n, htenant, hlive⟩ := hlive
  rw [h.mem_order, Option.isSome_iff_ne_none]
  intro hnone
  simpa [State.queue, hnone] using h.live_queued t n htenant hlive

theorem Inv.lt_calls (h : Inv L s) {t : Tenant} {n : ℕ} (hn : s.tenant n = some t) :
    n < s.calls := by
  by_contra hge
  simp [(h.fresh n (not_lt.mp hge)).1] at hn

theorem gains_grant (h : Inv L s) {n : ℕ} {queue : List ℕ} (hpruned : s.pruned tid = n :: queue) :
    Gains s (grant s tid rest n queue) n := by
  have hqueued := h.queued tid n ((s.pruned_sublist tid).subset (hpruned ▸ List.mem_cons_self))
  have hpending := State.pending_of_pruned hpruned
  refine ⟨rfl, rfl, h.lt_calls hqueued.1, by simp [State.Owns, hpending], ?_, fun m hm => ?_⟩
  · have hphase : s.phase n = .waiting := h.pending_waiting n (by simp [hqueued.1]) hpending
    simp [State.Owns, grant, hphase]
  · simp [State.Owns, grant, Function.update_of_ne hm]

theorem queue_grant (s : State Tenant) (tid : Tenant) (rest : List Tenant) (n : ℕ)
    (queue : List ℕ) (t : Tenant) :
    (grant s tid rest n queue).queue t = if t = tid then queue else s.queue t := by
  by_cases ht : t = tid
  · subst ht
    by_cases hq : queue = [] <;> simp [State.queue, grant, hq]
  · simp [State.queue, grant, ht]

/-- **A grant** keeps the invariant if a slot is free and the tenant is below its cap. -/
theorem Inv.grant (h : Inv L s) (horder : s.order = tid :: rest) {n : ℕ} {queue : List ℕ}
    (hpruned : s.pruned tid = n :: queue) (hcap : s.held tid < L.cap tid)
    (hfree : s.inUse < L.total) : Inv L (grant s tid rest n queue) := by
  have hgains : Gains s (FairShare.grant s tid rest n queue) n := gains_grant h hpruned
  have hsub : (n :: queue).Sublist (s.queue tid) := hpruned ▸ s.pruned_sublist tid
  have hsorted := (h.queue_sorted tid).sublist hsub
  have htenant := (h.queued tid n (hsub.subset List.mem_cons_self)).1
  have hfut {m : ℕ} (hm : m ≠ n) : (FairShare.grant s tid rest n queue).fut m = s.fut m :=
    Function.update_of_ne hm ..
  have hpending {m : ℕ} (hm : (FairShare.grant s tid rest n queue).fut m = .pending) : m ≠ n := by
    rintro rfl
    simp [FairShare.grant] at hm
  have hnodup : (FairShare.grant s tid rest n queue).order.Nodup ∧
      ∀ t, t ∈ (FairShare.grant s tid rest n queue).order ↔
        ((FairShare.grant s tid rest n queue).waiters t).isSome := by
    by_cases hq : queue = []
    · simpa only [FairShare.grant, hq, if_true] using h.order_drop horder
    · simpa only [FairShare.grant, hq, if_false] using h.order_rotate horder queue
  refine
    { order_nodup := hnodup.1
      mem_order := hnodup.2
      known := h.known
      fresh := fun m hm => ?_
      queued := fun t m hm => ?_
      queue_sorted := fun t => ?_
      live_queued := fun t m ht hm => ?_
      pending_waiting := fun m ht hm => ?_
      granted_of_phase := fun m hm => ?_
      held_eq := fun t => ?_
      inUse_eq := ?_
      held_le := fun t => ?_
      inUse_le := ?_ }
  · rw [hfut (fun heq => absurd hgains.lt_calls (not_lt.mpr (heq ▸ hm)))]
    exact h.fresh m hm
  · rw [queue_grant] at hm
    split_ifs at hm with ht
    · subst ht
      obtain ⟨htm, hnot⟩ := h.queued t m (hsub.subset (List.mem_cons_of_mem n hm))
      exact ⟨htm, by rwa [hfut (List.rel_of_pairwise_cons hsorted hm).ne']⟩
    · obtain ⟨htm, hnot⟩ := h.queued t m hm
      refine ⟨htm, ?_⟩
      rwa [hfut]
      rintro rfl
      exact ht (Option.some.inj (htm.symm.trans htenant))
  · rw [queue_grant]
    split_ifs with ht
    · exact hsorted.of_cons
    · exact h.queue_sorted t
  · have hmn := hpending hm.2
    have hlive : s.Live m := ⟨hm.1, (hfut hmn).symm.trans hm.2⟩
    rw [queue_grant]
    split_ifs with ht'
    · subst ht'
      have hmem := h.mem_pruned ht hlive
      rw [hpruned] at hmem
      exact (List.mem_cons.mp hmem).resolve_left hmn
    · exact h.live_queued t m ht hlive
  · exact h.pending_waiting m ht ((hfut (hpending hm)).symm.trans hm)
  · by_cases hmn : m = n
    · rw [hmn]
      exact hgains.owns.1
    · rw [hfut hmn]
      exact h.granted_of_phase m hm
  · rw [hgains.owned t, htenant]
    by_cases ht : t = tid
    · simp [ht, FairShare.grant, h.held_eq tid]
    · simp [ht, Ne.symm ht, FairShare.grant, h.held_eq t]
  · rw [hgains.owners]
    simp [FairShare.grant, h.inUse_eq]
  · by_cases ht : t = tid
    · subst ht
      simpa [FairShare.grant] using Int.add_one_le_of_lt hcap
    · simpa [FairShare.grant, ht] using h.held_le t
  · exact Int.add_one_le_of_lt hfree

/-- **One turn** keeps the invariant. -/
theorem Inv.turn (h : Inv L s) (hfree : s.inUse < L.total) : Inv L (turn L s).1 := by
  cases horder : s.order with
  | nil => rwa [turn_of_order_nil horder]
  | cons tid rest =>
    rcases turn_cases (L := L) horder with ⟨hpruned, hturn⟩ | ⟨n, queue, hpruned, -, hturn⟩ |
      ⟨n, queue, hpruned, hcap, hturn⟩ <;> rw [hturn]
    · refine h.requeue (List.nil_sublist _) (fun m htenant hlive => ?_) (h.order_drop horder)
      simpa [hpruned] using h.mem_pruned htenant hlive
    · refine h.requeue (hpruned ▸ s.pruned_sublist tid) (fun m htenant hlive => ?_)
        (h.order_rotate horder _)
      simpa [hpruned] using h.mem_pruned htenant hlive
    · exact h.grant horder hpruned hcap hfree

theorem Inv.dispatch (h : Inv L s) : Inv L (dispatch L s) :=
  dispatch_induction (P := Inv L) (fun _ hfree hinv => hinv.turn hfree) h

end Turn

/-! ### Work conservation -/

section Conserving

variable {s : State Tenant}

/-- A round without a grant leaves only tenants at their cap in the order. The induction is on the
turns that are left: the tenants of `passed` have had theirs. -/
theorem cap_le_of_round {k : ℕ} {rest passed : List Tenant} (horder : s.order = rest ++ passed)
    (hk : rest.length = k) (hpassed : ∀ t ∈ passed, L.cap t ≤ s.held t)
    (hnone : (round L k s).2 = false) :
    ∀ t ∈ (round L k s).1.order, L.cap t ≤ (round L k s).1.held t := by
  induction k generalizing s rest passed with
  | zero =>
    rw [List.eq_nil_of_length_eq_zero hk, List.nil_append] at horder
    rwa [round, horder]
  | succ k ih =>
    obtain ⟨tid, rest, rfl⟩ := List.exists_cons_of_length_eq_add_one hk
    rw [List.cons_append] at horder
    have hk : rest.length = k := by simpa using hk
    rcases turn_cases (L := L) horder with ⟨-, hturn⟩ | ⟨n, queue, -, hcap, hturn⟩ |
      ⟨n, queue, -, -, hturn⟩
    · simp only [round, hturn, Bool.false_eq_true, if_false] at hnone ⊢
      exact ih rfl hk hpassed hnone
    · simp only [round, hturn, Bool.false_eq_true, if_false] at hnone ⊢
      refine ih (List.append_assoc rest passed [tid]) hk (fun t ht => ?_) hnone
      rcases List.mem_append.mp ht with ht | ht
      · exact hpassed t ht
      · rw [List.mem_singleton.mp ht]
        exact hcap
    · simp [round, hturn] at hnone

/-- **`_dispatch` stops only when nobody can be served.** -/
theorem conserving_dispatch (h : Inv L s) : Conserving L (dispatch L s) := by
  rw [dispatch]
  generalize hfuel : (L.total - s.inUse).toNat = fuel
  induction fuel generalizing s with
  | zero =>
    intro hfree
    rw [dispatchLoop] at hfree
    omega
  | succ fuel ih =>
    rw [dispatchLoop]
    dsimp only
    split_ifs with hloop hgrant
    · have hround := round_inUse (L := L) s.order.length s
      rw [if_pos hgrant] at hround
      exact ih (round_induction (P := Inv L) (fun _ hf hinv => hinv.turn hf) _ hloop.1 h) (by omega)
    · -- every tenant still in the order is at its cap
      intro hfree t hcap hlive
      have hinv : Inv L (round L s.order.length s).1 :=
        round_induction (P := Inv L) (fun _ hf hinv => hinv.turn hf) _ hloop.1 h
      have hall := cap_le_of_round (L := L) (List.append_nil s.order).symm rfl
        (fun _ h => absurd h List.not_mem_nil) (by simpa using hgrant) t
        (hinv.mem_order_of_hasLiveWaiter hlive)
      exact absurd hall (not_le.mpr hcap)
    · intro hfree t hcap hlive
      exact hloop ⟨hfree, List.ne_nil_of_mem (h.mem_order_of_hasLiveWaiter hlive)⟩

omit [DecidableEq Tenant] in
/-- Work conservation only depends on the slots and on who is live. -/
theorem Conserving.of_live {s' : State Tenant} (h : Conserving L s)
    (hlive : ∀ n, s'.Live n → s.Live n) (htenant : s'.tenant = s.tenant := by rfl)
    (hheld : s'.held = s.held := by rfl) (hinUse : s'.inUse = s.inUse := by rfl) :
    Conserving L s' := by
  rintro hfree t hcap ⟨n, hn, hl⟩
  rw [hinUse] at hfree
  rw [hheld] at hcap
  rw [htenant] at hn
  exact h hfree t hcap ⟨n, hn, hlive n hl⟩

end Conserving

/-! ### Events -/

section Events

variable {s s' : State Tenant}

theorem Inv.lt_of_mem_queue (h : Inv L s) {t : Tenant} {n : ℕ} (hn : n ∈ s.queue t) :
    n < s.calls :=
  h.lt_calls (h.queued t n hn).1

theorem queue_enqueue (s : State Tenant) (t t' : Tenant) :
    (s.enqueue t).queue t' = if t' = t then s.queue t ++ [s.calls] else s.queue t' := by
  by_cases ht : t' = t
  · simp [State.enqueue, State.queue, ht]
  · simp [State.enqueue, State.queue, ht]

/-- A new call owns no slot. -/
theorem Inv.owns_enqueue (h : Inv L s) (t : Tenant) (m : ℕ) : (s.enqueue t).Owns m ↔ s.Owns m := by
  by_cases hm : m = s.calls
  · simp [State.Owns, State.enqueue, hm, (h.fresh s.calls le_rfl).2.1]
  · simp [State.Owns, State.enqueue, hm]

theorem Inv.owners_enqueue (h : Inv L s) (t : Tenant) : (s.enqueue t).owners = s.owners := by
  have hnot : ¬s.Owns s.calls := by simp [State.Owns, (h.fresh s.calls le_rfl).2.1]
  simp only [State.owners, h.owns_enqueue t]
  simp [State.enqueue, Finset.range_add_one, Finset.filter_insert, hnot]

theorem Inv.owned_enqueue (h : Inv L s) (t t' : Tenant) :
    (s.enqueue t).owned t' = s.owned t' := by
  have hnot : ¬s.Owns s.calls := by simp [State.Owns, (h.fresh s.calls le_rfl).2.1]
  simp only [State.owned, h.owns_enqueue t]
  simp only [State.enqueue, Finset.range_add_one, Finset.filter_insert, hnot, and_false, if_false]
  congr 1
  refine Finset.filter_congr fun m hm => ?_
  rw [Function.update_of_ne (Finset.mem_range.mp hm).ne]

theorem Inv.order_enqueue (h : Inv L s) (t : Tenant) :
    (s.enqueue t).order.Nodup ∧
      ∀ t', t' ∈ (s.enqueue t).order ↔ ((s.enqueue t).waiters t').isSome := by
  simp only [State.enqueue]
  split_ifs with hnone
  · have hnot : t ∉ s.order := by
      rw [h.mem_order, Option.isSome_iff_ne_none, not_not]
      exact Option.isNone_iff_eq_none.mp hnone
    refine ⟨List.nodup_append.mpr ⟨h.order_nodup, List.nodup_singleton t, ?_⟩, fun t' => ?_⟩
    · rintro a ha b hb rfl
      exact hnot (List.mem_singleton.mp hb ▸ ha)
    · by_cases ht : t' = t
      · simp [ht]
      · rw [List.mem_append, List.mem_singleton, or_iff_left ht, h.mem_order,
          Function.update_of_ne ht]
  · refine ⟨h.order_nodup, fun t' => ?_⟩
    rw [h.mem_order]
    by_cases ht : t' = t
    · subst ht
      simpa [Option.isSome_iff_ne_none] using hnone
    · rw [Function.update_of_ne ht]

/-- A new call keeps the invariant. -/
theorem Inv.enqueue (h : Inv L s) (t : Tenant) : Inv L (s.enqueue t) where
  order_nodup := (h.order_enqueue t).1
  mem_order := (h.order_enqueue t).2
  known n hn := by
    by_cases hlast : n = s.calls
    · simp [State.enqueue, hlast]
    · simp only [State.enqueue, Function.update_of_ne hlast]
      exact h.known n (lt_of_le_of_ne (Nat.lt_succ_iff.mp hn) hlast)
  fresh n hn := by
    have hlast : n ≠ s.calls := (Nat.lt_of_succ_le hn).ne'
    simp only [State.enqueue, Function.update_of_ne hlast]
    exact h.fresh n (Nat.le_of_succ_le hn)
  queued t' n hn := by
    rw [queue_enqueue] at hn
    have hfut := (h.fresh s.calls le_rfl).2.1
    by_cases hlast : n = s.calls
    · subst hlast
      split_ifs at hn with ht
      · subst ht
        simp [State.enqueue, hfut]
      · exact absurd (h.lt_of_mem_queue hn) (lt_irrefl _)
    · have hmem : n ∈ s.queue t' := by
        split_ifs at hn with ht
        · subst ht
          simpa [hlast] using hn
        · exact hn
      simpa only [State.enqueue, Function.update_of_ne hlast] using h.queued t' n hmem
  queue_sorted t' := by
    rw [queue_enqueue]
    split_ifs with ht
    · refine List.pairwise_append.mpr ⟨h.queue_sorted t, List.pairwise_singleton .., ?_⟩
      intro m hm n hn
      rw [List.mem_singleton.mp hn]
      exact h.lt_of_mem_queue hm
    · exact h.queue_sorted t'
  live_queued t' n htenant hlive := by
    rw [queue_enqueue]
    by_cases hlast : n = s.calls
    · subst hlast
      obtain rfl : t = t' := by simpa [State.enqueue] using htenant
      simp
    · simp only [State.enqueue, State.Live, Function.update_of_ne hlast] at htenant hlive
      have hmem := h.live_queued t' n htenant hlive
      split_ifs with ht
      · subst ht
        exact List.mem_append_left _ hmem
      · exact hmem
  pending_waiting n htenant hfut := by
    by_cases hlast : n = s.calls
    · simp [State.enqueue, hlast]
    · simp only [State.enqueue, Function.update_of_ne hlast] at htenant hfut ⊢
      exact h.pending_waiting n htenant hfut
  granted_of_phase n hphase := by
    by_cases hlast : n = s.calls
    · simp [State.enqueue, hlast] at hphase
    · simp only [State.enqueue, Function.update_of_ne hlast] at hphase
      exact h.granted_of_phase n hphase
  held_eq t' := by
    rw [h.owned_enqueue]
    exact h.held_eq t'
  inUse_eq := by
    rw [h.owners_enqueue]
    exact h.inUse_eq
  held_le := h.held_le
  inUse_le := h.inUse_le

omit [DecidableEq Tenant] in
theorem owns_cancelFuture {n : ℕ} (hlive : s.Live n) (m : ℕ) :
    (s.cancelFuture n).Owns m ↔ s.Owns m := by
  by_cases hm : m = n
  · simp [State.Owns, State.cancelFuture, State.setPhase, hm, hlive.2]
  · simp [State.Owns, State.cancelFuture, State.setPhase, hm]

omit [DecidableEq Tenant] in
theorem live_of_live_cancelFuture {n m : ℕ} (h : (s.cancelFuture n).Live m) : m ≠ n ∧ s.Live m := by
  by_cases hm : m = n
  · simp [State.Live, State.cancelFuture, State.setPhase, hm] at h
  · exact ⟨hm, by simpa [State.Live, State.cancelFuture, State.setPhase, hm] using h⟩

/-- A cancelled future stays in its queue, where it is no longer live. -/
theorem Inv.cancelFuture (h : Inv L s) {n : ℕ} (hlive : s.Live n) : Inv L (s.cancelFuture n) :=
  { h with
    fresh := fun m hm => by
      obtain ⟨htenant, hfut, hphase⟩ := h.fresh m hm
      have hmn : m ≠ n := by
        rintro rfl
        exact absurd (hlive.1.symm.trans hphase) (by decide)
      simpa [State.cancelFuture, State.setPhase, hmn] using ⟨htenant, hfut, hphase⟩
    queued := fun t m hm => by
      obtain ⟨htenant, hfut⟩ := h.queued t m hm
      refine ⟨htenant, ?_⟩
      by_cases hmn : m = n
      · simp [State.cancelFuture, hmn]
      · simpa [State.cancelFuture, hmn] using hfut
    live_queued := fun t m htenant hm => h.live_queued t m htenant (live_of_live_cancelFuture hm).2
    pending_waiting := fun m htenant hfut => by
      by_cases hmn : m = n
      · simp [State.cancelFuture, hmn] at hfut
      · simp only [State.cancelFuture, State.setPhase, Function.update_of_ne hmn] at hfut ⊢
        exact h.pending_waiting m htenant hfut
    granted_of_phase := fun m hphase => by
      by_cases hmn : m = n
      · simp [State.cancelFuture, State.setPhase, hmn] at hphase
      · simp only [State.cancelFuture, State.setPhase, Function.update_of_ne hmn] at hphase ⊢
        exact h.granted_of_phase m hphase
    held_eq := fun t => by
      rw [owned_congr (owns_cancelFuture hlive) rfl rfl]
      exact h.held_eq t
    inUse_eq := by
      rw [owners_congr (owns_cancelFuture hlive) rfl]
      exact h.inUse_eq }

omit [DecidableEq Tenant] in
theorem live_setPhase {n : ℕ} {p : Phase} (hfut : s.fut n = .granted) (m : ℕ) :
    (s.setPhase n p).Live m ↔ s.Live m := by
  by_cases hm : m = n
  · simp [State.Live, State.setPhase, hm, hfut]
  · simp [State.Live, State.setPhase, hm]

/-- A call whose future is done may go on, or see its cancellation, as long as it keeps the slot. -/
theorem Inv.setPhase (h : Inv L s) {n : ℕ} {p : Phase} (hphase : s.phase n = .waiting)
    (hfut : s.fut n = .granted) (hp : p = .cancelling ∨ p = .holding) : Inv L (s.setPhase n p) := by
  have hown (m : ℕ) : (s.setPhase n p).Owns m ↔ s.Owns m := by
    by_cases hm : m = n
    · rcases hp with rfl | rfl <;> simp [State.Owns, State.setPhase, hm, hphase]
    · simp [State.Owns, State.setPhase, hm]
  exact
    { h with
      fresh := fun m hm => by
        obtain ⟨htenant, hfut', hphase'⟩ := h.fresh m hm
        have hmn : m ≠ n := by
          rintro rfl
          exact absurd (hphase.symm.trans hphase') (by decide)
        simpa [State.setPhase, hmn] using ⟨htenant, hfut', hphase'⟩
      live_queued := fun t m htenant hm =>
        h.live_queued t m htenant ((live_setPhase hfut m).mp hm)
      pending_waiting := fun m htenant hpend => by
        have hmn : m ≠ n := by
          rintro rfl
          exact absurd (hfut.symm.trans hpend) (by decide)
        simpa [State.setPhase, hmn] using h.pending_waiting m htenant hpend
      granted_of_phase := fun m hm => by
        by_cases hmn : m = n
        · rw [hmn]
          exact hfut
        · simp only [State.setPhase, Function.update_of_ne hmn] at hm
          exact h.granted_of_phase m hm
      held_eq := fun t => by
        rw [owned_congr hown rfl rfl]
        exact h.held_eq t
      inUse_eq := by
        rw [owners_congr hown rfl]
        exact h.inUse_eq }

theorem Inv.gains_giveBack (h : Inv L s) {n : ℕ} {t : Tenant}
    (hphase : s.phase n = .cancelling ∨ s.phase n = .holding) (htenant : s.tenant n = some t) :
    Gains (s.giveBack n t) s n where
  calls_eq := rfl
  tenant_eq := rfl
  lt_calls := h.lt_calls htenant
  not_owns := by simp [State.Owns, State.giveBack]
  owns := by
    refine ⟨h.granted_of_phase n hphase, ?_⟩
    rcases hphase with hphase | hphase <;> simp [hphase]
  owns_iff m hm := by simp [State.Owns, State.giveBack, hm]

/-- Giving a slot back keeps the invariant. -/
theorem Inv.giveBack (h : Inv L s) {n : ℕ} {t : Tenant}
    (hphase : s.phase n = .cancelling ∨ s.phase n = .holding) (htenant : s.tenant n = some t) :
    Inv L (s.giveBack n t) := by
  have hgains := h.gains_giveBack hphase htenant
  have hfut : s.fut n = .granted := h.granted_of_phase n hphase
  have howned (t' : Tenant) : s.owned t' = (s.giveBack n t).owned t' + if t' = t then 1 else 0 := by
    have htenant' : (s.giveBack n t).tenant n = some t := htenant
    simpa only [htenant', Option.some.injEq, eq_comm] using hgains.owned t'
  have hheld (t' : Tenant) :
      (s.giveBack n t).held t' = s.held t' - if t' = t then 1 else 0 := by
    by_cases ht : t' = t
    · subst ht
      have hpos := howned t'
      have heq := h.held_eq t'
      simp only [State.giveBack, Function.update_self, if_true] at hpos ⊢
      split_ifs <;> omega
    · simp [State.giveBack, ht]
  exact
    { h with
      fresh := fun m hm => by
        obtain ⟨htenant', hfut', hphase'⟩ := h.fresh m hm
        have hmn : m ≠ n := by
          rintro rfl
          exact absurd (htenant.symm.trans htenant') (by simp)
        simpa [State.giveBack, hmn] using ⟨htenant', hfut', hphase'⟩
      live_queued := fun t' m htenant' hm => by
        by_cases hmn : m = n
        · simp [State.Live, State.giveBack, hmn] at hm
        · exact h.live_queued t' m htenant' (by simpa [State.Live, State.giveBack, hmn] using hm)
      pending_waiting := fun m htenant' hpend => by
        have hmn : m ≠ n := by
          rintro rfl
          exact absurd (hfut.symm.trans hpend) (by decide)
        simpa [State.giveBack, hmn] using h.pending_waiting m htenant' hpend
      granted_of_phase := fun m hm => by
        by_cases hmn : m = n
        · rw [hmn]
          exact hfut
        · simp only [State.giveBack, Function.update_of_ne hmn] at hm
          exact h.granted_of_phase m hm
      held_eq := fun t' => by
        rw [hheld, h.held_eq, howned]
        split_ifs <;> simp
      inUse_eq := by
        have hinUse : (s.giveBack n t).inUse = s.inUse - 1 := rfl
        rw [hinUse, h.inUse_eq, hgains.owners]
        simp
      held_le := fun t' => by
        rw [hheld]
        have := h.held_le t'
        split_ifs <;> omega
      inUse_le := (sub_le_self _ zero_le_one).trans h.inUse_le }

/-- **One event** keeps the invariant and leaves no slot free for a waiting tenant. -/
theorem Inv.step {e : Event Tenant} (h : Inv L s) (hc : Conserving L s) (hstep : Step L s e s') :
    Inv L s' ∧ Conserving L s' := by
  rcases step_cases hstep with ⟨t, -, rfl⟩ | ⟨n, hlive, -, rfl⟩ |
    ⟨n, p, hphase, hfut, hp, -, rfl⟩ | ⟨n, t, hphase, htenant, -, rfl⟩
  · have hinv := (h.enqueue t).dispatch
    have hcons := conserving_dispatch (h.enqueue t)
    rw [State.returnGranted]
    split_ifs with hfut
    · have hphase : (FairShare.dispatch L (s.enqueue t)).phase s.calls = .waiting := by
        rw [(dispatch_frame _).1]
        simp [State.enqueue]
      exact ⟨hinv.setPhase hphase hfut (Or.inr rfl),
        hcons.of_live fun m => (live_setPhase hfut m).mp⟩
    · exact ⟨hinv, hcons⟩
  · exact ⟨h.cancelFuture hlive, hc.of_live fun m hm => (live_of_live_cancelFuture hm).2⟩
  · exact ⟨h.setPhase hphase hfut hp, hc.of_live fun m => (live_setPhase hfut m).mp⟩
  · have hinv := h.giveBack hphase htenant
    exact ⟨hinv.dispatch, conserving_dispatch hinv⟩

end Events

/-- **Safety and work conservation.** In every state that calls, cancellations, resumptions and
releases can reach in any order: the slots held by the tenants add up to the slots in use, which are
at most `total`; a tenant holds at most its cap, and exactly one slot for each of its calls that was
granted one and has not given it back; the order lists the tenants that have a queue, each once; and
no slot is free while a tenant below its cap has a live waiter. -/
theorem safety {l : List (Event Tenant)} {s : State Tenant}
    (hrun : Run (Step L) (State.init Tenant) l s) :
    (∃ S : Finset Tenant, (∀ t, s.held t ≠ 0 → t ∈ S) ∧ ∑ t ∈ S, s.held t = s.inUse) ∧
    s.inUse ≤ L.total ∧
    (∀ t, s.held t ≤ L.cap t) ∧
    (∀ t, s.held t = s.owned t) ∧
    (s.order.Nodup ∧ ∀ t, t ∈ s.order ↔ (s.waiters t).isSome) ∧
    (∀ t, s.HasLiveWaiter t → s.held t < L.cap t → s.inUse = L.total) := by
  obtain ⟨h, hc⟩ : Inv L s ∧ Conserving L s :=
    hrun.invariant (I := fun s => Inv L s ∧ Conserving L s)
      (fun _ _ _ hinv hstep => hinv.1.step hinv.2 hstep) ⟨inv_init, conserving_init⟩
  refine ⟨h.sum_held, h.inUse_le, h.held_le, h.held_eq, ⟨h.order_nodup, h.mem_order⟩, ?_⟩
  intro t hlive hcap
  by_contra hne
  exact hc (lt_of_le_of_ne h.inUse_le hne) t hcap hlive

/-- One slot and no caps. -/
def sampleSetup : Setup ℕ := ⟨1, none⟩

/-- The slot of tenant 1 goes to a call of tenant 2, which is cancelled before it runs. -/
def sampleEvents : List (Event ℕ) :=
  [.acquire 1, .acquire 2, .acquire 1, .release 0, .cancel 1, .resume 1]

/-- The slot is handed on to the call that still waits. -/
theorem safety_cancelled_grant :
    ∃ s, sampleEvents.foldlM (State.step sampleSetup) (State.init ℕ) = some s ∧
      s.fut 2 = .granted ∧ s.held 1 = s.owned 1 ∧ s.inUse ≤ 1 := by
  have hgranted : ((sampleEvents.foldlM (State.step sampleSetup) (State.init ℕ)).map
      fun s => s.fut 2) = some .granted := by decide
  obtain ⟨s, hs, hfut⟩ := Option.map_eq_some_iff.mp hgranted
  have h := safety (Run.of_foldlM hs)
  exact ⟨s, hs, hfut, h.2.2.2.1 1, h.2.1⟩

end Nodeglow.FairShare
