import Nodeglow.Backend.Changes.Pages
import Nodeglow.Foundation.Loop

/-!
# Walking the change feed

Who wants the whole feed reads page after page, as long as there are more items. An offset over
`MAX_OFFSET` is clamped without a word, and whether there are more items is told of the clamped
offset. So a walk over a long feed reads the page at `MAX_OFFSET` again: once, where that is the
last one (`length_of_clamped`), and for ever otherwise (`not_ends_of_clamped`).

## Main results

* `delivers_iff` — the walk delivers the feed exactly when it reaches the last page.

Source: `backend/services/changes.py`, lines 90–96 and 234–248.
-/

namespace Nodeglow.Changes

section Walk

variable (py : Python) (db : Database) (plan : Plan) (now : ℤ) (req : Request)

/-- The page at an offset. -/
def pageAt (offset : ℕ) : Page := collect py db plan now { req with offset := offset }

/-- One page of the walk: the offset goes on by the number of items, as long as there are more. -/
def walkTurn : ℕ × List Item → List Item ⊕ (ℕ × List Item)
  | (offset, received) =>
    let page := pageAt py db plan now req offset
    if page.hasMore then .inr (offset + page.items.length, received ++ page.items)
    else .inl (received ++ page.items)

/-- **The walk delivers the feed**: it ends, and the pages are the full feed, without repetition. -/
def Delivers : Prop := fullFeed py db plan now req ∈ Loop.run (walkTurn py db plan now req) (0, [])

/-- The offset of the last page is at most `MAX_OFFSET`. -/
def Reaches : Prop :=
  ((fullFeed py db plan now req).length - 1) / req.limit * req.limit ≤ maxOffset

instance : Decidable (Reaches py db plan now req) := by
  unfold Reaches
  infer_instance

end Walk

variable {py : Python} {db : Database} {plan : Plan} {now : ℤ} {req : Request} {offset k : ℕ}
  {received : List Item}

/-- An offset that is clamped, and one that is not. -/
theorem start_natCast (req : Request) (offset : ℕ) :
    Request.start { req with offset := offset } = min offset maxOffset := by
  change (max 0 (min (offset : ℤ) maxOffset)).toNat = min offset maxOffset
  omega

theorem pageAt_items (py : Python) (db : Database) (plan : Plan) (now : ℤ) (req : Request)
    (offset : ℕ) : (pageAt py db plan now req offset).items =
      ((fullFeed py db plan now req).drop (min offset maxOffset)).take req.limit := by
  rw [pageAt, collect_items, start_natCast]
  rfl

/-- There are more items where the feed goes on behind the page. -/
theorem hasMore_iff (py : Python) (db : Database) (plan : Plan) (now : ℤ) (req : Request)
    (offset : ℕ) : (pageAt py db plan now req offset).hasMore = true ↔
      min offset maxOffset + req.limit < (fullFeed py db plan now req).length := by
  have hmore : (pageAt py db plan now req offset).hasMore =
      decide (Request.start { req with offset := offset } +
        (pageAt py db plan now req offset).items.length <
          (pageAt py db plan now req offset).total) := rfl
  have htotal : (pageAt py db plan now req offset).total = (fullFeed py db plan now req).length :=
    collect_total py db plan now { req with offset := offset }
  rw [hmore, decide_eq_true_eq, htotal, pageAt_items, start_natCast, List.length_take,
    List.length_drop]
  omega

/-- What one page does to the walk. -/
theorem walkTurn_of_le (py : Python) (db : Database) (plan : Plan) (now : ℤ) (req : Request)
    (hle : offset ≤ maxOffset) :
    walkTurn py db plan now req (offset, (fullFeed py db plan now req).take offset) =
      if offset + req.limit < (fullFeed py db plan now req).length then
        .inr (offset + req.limit, (fullFeed py db plan now req).take (offset + req.limit))
      else .inl (fullFeed py db plan now req) := by
  have hmore := hasMore_iff py db plan now req offset
  have hitems := pageAt_items py db plan now req offset
  rw [min_eq_left hle] at hmore hitems
  have hreceived : (fullFeed py db plan now req).take offset ++
      (pageAt py db plan now req offset).items =
        (fullFeed py db plan now req).take (offset + req.limit) := by
    rw [hitems, ← List.take_add]
  rw [walkTurn, hreceived]
  split_ifs with hcond hlt hlt
  · have hlength : (pageAt py db plan now req offset).items.length = req.limit := by
      rw [hitems, List.length_take, List.length_drop]
      omega
    rw [hlength]
  · exact absurd (hmore.mp hcond) hlt
  · exact absurd (hmore.mpr hlt) hcond
  · rw [List.take_of_length_le (not_lt.mp hlt)]

/-- The walk comes to the page of an offset where it is not clamped before. -/
theorem mem_run_iff_at {r : List Item} (hbefore : ∀ j < k, j * req.limit ≤ maxOffset)
    (hk : k * req.limit < (fullFeed py db plan now req).length ∨ k = 0) :
    r ∈ Loop.run (walkTurn py db plan now req) (0, []) ↔
      r ∈ Loop.run (walkTurn py db plan now req)
        (k * req.limit, (fullFeed py db plan now req).take (k * req.limit)) := by
  induction k with
  | zero => simp
  | succ k ih =>
    have hlt : (k + 1) * req.limit < (fullFeed py db plan now req).length :=
      hk.resolve_right (Nat.succ_ne_zero k)
    have hsucc : (k + 1) * req.limit = k * req.limit + req.limit := Nat.succ_mul k req.limit
    have hturn := walkTurn_of_le py db plan now req (hbefore k (Nat.lt_succ_self k))
    rw [if_pos (by omega)] at hturn
    rw [ih (fun j hj => hbefore j (Nat.lt_succ_of_lt hj)) (.inl (by omega)),
      Loop.mem_run_of_inr hturn, hsucc]

/-- **A walk that reaches the last page** delivers the feed. -/
theorem Reaches.delivers (hlimit : 0 < req.limit) (h : Reaches py db plan now req) :
    Delivers py db plan now req := by
  rw [Reaches] at h
  set length := (fullFeed py db plan now req).length with hlength
  set k := (length - 1) / req.limit with hk
  have hbefore : ∀ j < k, j * req.limit ≤ maxOffset := fun j hj =>
    (Nat.mul_le_mul_right req.limit hj.le).trans h
  have hlow : k * req.limit ≤ length - 1 := Nat.div_mul_le_self _ _
  have hhigh : length - 1 < k * req.limit + req.limit := Nat.lt_div_mul_add hlimit
  have hlast : k * req.limit < length ∨ k = 0 := by
    by_cases hempty : length = 0
    · exact .inr (by rw [hk, hempty, Nat.zero_sub, Nat.zero_div])
    · exact .inl (by omega)
  have hturn := walkTurn_of_le py db plan now req h
  rw [if_neg (by omega)] at hturn
  rw [Delivers, mem_run_iff_at hbefore hlast, Loop.mem_run_of_inl hturn]

/-! ### A walk that does not reach the last page -/

/-- The first offset that is clamped is in the feed. -/
theorem exists_clamped (hlimit : 0 < req.limit) (h : ¬Reaches py db plan now req) :
    ∃ k, (∀ j < k, j * req.limit ≤ maxOffset) ∧ maxOffset < k * req.limit ∧
      k * req.limit < (fullFeed py db plan now req).length := by
  rw [Reaches, not_le] at h
  set length := (fullFeed py db plan now req).length
  have hlow : (length - 1) / req.limit * req.limit ≤ length - 1 := Nat.div_mul_le_self _ _
  have hclamped : maxOffset < (maxOffset / req.limit + 1) * req.limit := by
    rw [Nat.succ_mul]
    exact Nat.lt_div_mul_add hlimit
  have hfirst : maxOffset / req.limit + 1 ≤ (length - 1) / req.limit := by
    by_contra hlt
    have hle := Nat.mul_le_mul_right req.limit (Nat.lt_succ_iff.mp (not_le.mp hlt))
    exact absurd (hle.trans (Nat.div_mul_le_self _ _)) (not_le.mpr h)
  refine ⟨maxOffset / req.limit + 1, fun j hj => ?_, hclamped, ?_⟩
  · exact (Nat.mul_le_mul_right req.limit (Nat.lt_succ_iff.mp hj)).trans (Nat.div_mul_le_self _ _)
  · have hmul := Nat.mul_le_mul_right req.limit hfirst
    omega

/-- **A walk without end**: behind `MAX_OFFSET` there are always more items, where the page at
`MAX_OFFSET` is not the last one. -/
theorem not_ends_of_clamped (hoffset : maxOffset ≤ offset)
    (hlong : maxOffset + req.limit < (fullFeed py db plan now req).length) :
    ¬Loop.Ends (walkTurn py db plan now req) (offset, received) := by
  refine Loop.not_ends (I := fun s => maxOffset ≤ s.1) (fun s hs => ?_) hoffset
  obtain ⟨offset, received⟩ := s
  have hmore : (pageAt py db plan now req offset).hasMore = true := by
    rw [hasMore_iff, min_eq_right hs]
    exact hlong
  exact ⟨_, by rw [walkTurn, if_pos hmore], Nat.le_add_right_of_le hs⟩

/-- **A walk with a repetition**: where the page at `MAX_OFFSET` is the last one, it is read twice,
and there are more items than in the feed. -/
theorem length_of_clamped (hoffset : maxOffset < offset)
    (hshort : (fullFeed py db plan now req).length ≤ maxOffset + req.limit)
    (hin : offset < (fullFeed py db plan now req).length) {r : List Item}
    (hr : r ∈ Loop.run (walkTurn py db plan now req)
      (offset, (fullFeed py db plan now req).take offset)) :
    (fullFeed py db plan now req).length < r.length := by
  have hmore : ¬(pageAt py db plan now req offset).hasMore = true := by
    rw [hasMore_iff, min_eq_right hoffset.le]
    exact not_lt.mpr hshort
  have hturn : walkTurn py db plan now req (offset, (fullFeed py db plan now req).take offset) =
      .inl ((fullFeed py db plan now req).take offset ++
        (pageAt py db plan now req offset).items) := by
    rw [walkTurn, if_neg hmore]
  rw [(Loop.mem_run_of_inl hturn).mp hr, pageAt_items, min_eq_right hoffset.le, List.length_append,
    List.length_take, List.length_take, List.length_drop]
  omega

theorem Delivers.reaches (hlimit : 0 < req.limit) (h : Delivers py db plan now req) :
    Reaches py db plan now req := by
  by_contra hnot
  obtain ⟨k, hbefore, hclamped, hin⟩ := exists_clamped hlimit hnot
  rw [Delivers, mem_run_iff_at hbefore (.inl hin)] at h
  by_cases hlong : maxOffset + req.limit < (fullFeed py db plan now req).length
  · exact not_ends_of_clamped hclamped.le hlong (Loop.ends_iff_exists.mpr ⟨_, h⟩)
  · exact lt_irrefl _ (length_of_clamped hclamped (not_lt.mp hlong) hin h)

/-- **When the walk delivers the feed**: exactly when the offset of the last page is at most
`MAX_OFFSET`. -/
theorem delivers_iff (py : Python) (db : Database) (plan : Plan) (now : ℤ) (req : Request)
    (hlimit : 0 < req.limit) : Delivers py db plan now req ↔ Reaches py db plan now req :=
  ⟨Delivers.reaches hlimit, Reaches.delivers hlimit⟩

/-- Two incidents are delivered one by one. -/
theorem delivers_sample : Delivers .sample sampleDatabase .sample 100 ⟨0, none, 1, 0, [], false⟩ :=
  (delivers_iff .sample sampleDatabase .sample 100 ⟨0, none, 1, 0, [], false⟩ (by decide)).mpr
    (by decide : Reaches _ _ _ _ _)

/-! ### A long feed -/

/-- Incidents that were opened at one time. -/
def crowdedDatabase (n : ℕ) : Database where
  incidents := (List.range n).map fun id => sampleIncident id 10
  incidentEvents := []
  pingHosts := []
  discoveredPorts := []
  agents := []
  auditLogs := []
  maintenanceWindows := []
  incident_nodup := by
    rw [List.map_map]
    exact (List.map_id (List.range n)).symm ▸ List.nodup_range
  host_nodup := List.nodup_nil
  incident_of_event := by simp
  host_of_port := host_of_noPort

/-- The pages of incidents that were opened. -/
def openedRequest : Request := ⟨0, none, 200, 0, [.incidentOpened], false⟩

theorem length_crowded (n : ℕ) :
    (fullFeed .sample (crowdedDatabase n) .sample 100 openedRequest).length = n := by
  have hsources : sourceOrder.filter openedRequest.wants = [.incidentOpened] := by decide
  have hrows : opened (crowdedDatabase n) 0 100 =
      (List.range n).map fun id => (10, sampleIncident id 10) := by
    simp [opened, inRange, crowdedDatabase, sampleIncident, List.filterMap_map]
  have hcount : (collect .sample (crowdedDatabase n) .sample 100 openedRequest).total =
      (opened (crowdedDatabase n) 0 100).length := by
    rw [collect, hsources]
    rfl
  rw [← collect_total, hcount, hrows, List.length_map, List.length_range]

/-- **A walk over 5,400 incidents** in pages of 200 does not deliver them. -/
theorem not_delivers : ¬Delivers .sample (crowdedDatabase 5400) .sample 100 openedRequest := by
  intro h
  have hreaches := h.reaches (by decide)
  rw [Reaches, length_crowded] at hreaches
  exact absurd hreaches (by decide)

end Nodeglow.Changes
