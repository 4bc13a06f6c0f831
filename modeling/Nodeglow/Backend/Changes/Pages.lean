import Nodeglow.Backend.Changes.Feed

/-!
# Pages of the change feed

A page is cut out of what was read, and what was read of the sources does not reach further than the
page can. So it is the slice of the full feed, and the total, which other queries count, is the
length of the full feed.

## Main results

* `length_queriedItems` — the rows of a source are those that are counted.
* `collect_items` — a page is a slice of the full feed.
* `collect_total` — the total is the length of the full feed.
* `collect_page` — both, for every offset that is allowed.

Source: `backend/services/changes.py`, lines 69–248.
-/

namespace Nodeglow.Changes

variable {py : Python} {db : Database} {plan : Plan} {since stop now : ℤ} {req : Request}
  {type : FeedType} {n m : ℕ} {α β γ : Type} {mk : ℤ → α → Item} {rows : List (ℤ × α)}

instance : IsTrans Item Newer := ⟨fun _ _ _ hab hbc => le_trans hbc hab⟩

instance : IsTrans (ℤ × α) RowNewer := ⟨fun _ _ _ hab hbc => le_trans hbc hab⟩

instance : Std.Total (@RowNewer α) := ⟨fun a b => le_total b.1 a.1⟩

/-! ### The items of a source -/

/-- Items whose times are those of their rows are sorted as the rows are. -/
theorem pairwise_items (hmk : ∀ t row, (mk t row).time = t) (rows : List (ℤ × α)) :
    (plan.items type mk rows).Pairwise Newer := by
  rw [Plan.items, List.pairwise_map]
  refine (List.pairwise_insertionSort RowNewer _).imp fun {a b} hab => ?_
  rw [Newer, hmk, hmk]
  exact hab

theorem pairwise_queriedItems : (queriedItems py db plan since stop type).Pairwise Newer := by
  cases type with
  | probeSilent => exact .nil
  | _ => exact pairwise_items (fun _ _ => rfl) _

/-- **What is read of a source** may stand for the whole source, as far as the page goes. -/
theorem agrees_readItems (py : Python) (db : Database) (plan : Plan) (since stop : ℤ) (hnm : n ≤ m)
    (type : FeedType) :
    TruncatedMerge.Agrees Newer n (readItems py db plan since stop m type)
      (computedItems py db since stop type ++ queriedItems py db plan since stop type) :=
  (TruncatedMerge.Agrees.refl _).append (TruncatedMerge.agrees_take hnm pairwise_queriedItems)

theorem length_items (mk : ℤ → α → Item) (rows : List (ℤ × α)) :
    (plan.items type mk rows).length = rows.length := by
  rw [Plan.items, List.length_map, Plan.newestFirst, List.length_insertionSort,
    (plan.perm type rows).length_eq]

/-- One row has an id that is there. -/
theorem length_filter_id {id : β → ℕ} {parents : List β} (hnodup : (parents.map id).Nodup) {k : ℕ}
    (hk : k ∈ parents.map id) : (parents.filter fun p => id p = k).length = 1 := by
  have hcount : (parents.map id).count k = 1 := List.count_eq_one_of_mem hnodup hk
  rw [← hcount, List.count, List.countP_map, List.countP_eq_length_filter]
  rfl

/-- **A join loses no row and repeats none**, where each row has one parent. -/
theorem length_join {key : α → ℕ} {id : β → ℕ} {parents : List β} (value : β → γ)
    (hnodup : (parents.map id).Nodup) (hrows : ∀ row ∈ rows, key row.2 ∈ parents.map id) :
    (join key id value parents rows).length = rows.length := by
  induction rows with
  | nil => rfl
  | cons row rows ih =>
    obtain ⟨hrow, hrows⟩ := List.forall_mem_cons.mp hrows
    rw [join, List.flatMap_cons, List.length_append, List.length_map,
      length_filter_id hnodup hrow, List.length_cons, Nat.add_comm]
    exact congrArg (· + 1) (ih hrows)

theorem mem_of_mem_inRange {time : α → Option ℤ} {cond : α → Bool} {table : List α} {row : ℤ × α}
    (h : row ∈ inRange since stop time cond table) : row.2 ∈ table := by
  obtain ⟨a, ha, hrow⟩ := List.mem_filterMap.mp h
  obtain ⟨t, -, hrow⟩ := Option.bind_eq_some_iff.mp hrow
  obtain ⟨-, hrow⟩ := Option.ite_none_right_eq_some.mp hrow
  cases hrow
  exact (List.mem_filter.mp ha).1

/-- **The rows of a source are those that are counted.** -/
theorem length_queriedItems (type : FeedType) :
    (queriedItems py db plan since stop type).length = rowCount db since stop type := by
  cases type with
  | probeSilent => rfl
  | incidentAcknowledged =>
    refine (length_items _ _).trans (length_join _ db.incident_nodup fun row hrow => ?_)
    exact db.incident_of_event _ (mem_of_mem_inRange hrow)
  | portDiscovered =>
    refine (length_items _ _).trans (length_join _ db.host_nodup fun row hrow => ?_)
    exact db.host_of_port _ (mem_of_mem_inRange hrow)
  | _ => exact length_items _ _

/-- The count of a source is the number of its items, however deep it is read. -/
theorem sourceCount_eq (depth : ℕ) (type : FeedType) :
    sourceCount py db plan since stop depth type =
      (computedItems py db since stop type ++ queriedItems py db plan since stop type).length := by
  rw [List.length_append, length_queriedItems]
  cases type with
  | maintenanceStarted =>
    rw [sourceCount, readItems, List.length_append, Nat.add_sub_cancel_right]
  | probeSilent =>
    rw [sourceCount, readItems, List.length_append, queriedItems, List.take_nil]
    rfl
  | _ => exact (Nat.zero_add _).symm

/-! ### Pages -/

/-- A page is the slice of the full feed from the clamped offset on. -/
theorem collect_items (py : Python) (db : Database) (plan : Plan) (now : ℤ) (req : Request) :
    (collect py db plan now req).items =
      ((fullFeed py db plan now req).drop req.start).take req.limit := by
  have hstart := (TruncatedMerge.Agrees.flatMap (sourceOrder.filter req.wants) fun type _ =>
    agrees_readItems py db plan (req.from now) (req.until now) (le_refl (req.start + req.limit))
      type).take_insertionSort
  rw [collect, fullFeed, List.take_drop, List.take_drop, hstart]

/-- The total is the length of the full feed. -/
theorem collect_total (py : Python) (db : Database) (plan : Plan) (now : ℤ) (req : Request) :
    (collect py db plan now req).total = (fullFeed py db plan now req).length := by
  rw [collect, fullFeed, List.length_insertionSort, List.length_flatMap]
  exact congrArg List.sum (List.map_congr_left fun type _ => sourceCount_eq _ type)

theorem start_eq (hlow : 0 ≤ req.offset) (hhigh : req.offset ≤ maxOffset) :
    req.start = req.offset.toNat := by
  rw [Request.start, min_eq_left hhigh, max_eq_right hlow]

/-- **A page of the feed** is the slice of the full feed from the offset on, as long as the limit
says, and its total is the length of the full feed. -/
theorem collect_page (py : Python) (db : Database) (plan : Plan) (now : ℤ) (req : Request)
    (hlow : 0 ≤ req.offset) (hhigh : req.offset ≤ maxOffset) :
    (collect py db plan now req).items =
        ((fullFeed py db plan now req).drop req.offset.toNat).take req.limit ∧
      (collect py db plan now req).total = (fullFeed py db plan now req).length := by
  rw [← start_eq hlow hhigh]
  exact ⟨collect_items py db plan now req, collect_total py db plan now req⟩

/-- Python with few texts, and without JSON and time zones. -/
def Python.sample : Python where
  iso _ := ""
  str _ := ""
  loads _ := none
  zoneInfo _ := ⟨fun t => t, fun day _ => day⟩

/-- A query that has rows of one time in the order of the table. -/
def Plan.sample : Plan where
  scan _ _ rows := rows
  perm _ _ rows := .refl rows

/-- An incident that was opened at an instant. -/
def sampleIncident (id : ℕ) (createdAt : ℤ) : Incident :=
  ⟨id, "Host down", "critical", "host_down", "open", createdAt, none⟩

theorem host_of_noPort :
    ∀ dp ∈ ([] : List DiscoveredPort), dp.hostId ∈ ([] : List PingHost).map PingHost.id := by simp

/-- Two incidents. -/
def sampleDatabase : Database where
  incidents := [sampleIncident 1 10, sampleIncident 2 20]
  incidentEvents := []
  pingHosts := []
  discoveredPorts := []
  agents := []
  auditLogs := []
  maintenanceWindows := []
  incident_nodup := by decide
  host_nodup := List.nodup_nil
  incident_of_event := by simp
  host_of_port := host_of_noPort

/-- The second page of two has the older incident. -/
theorem collect_sample :
    ((collect .sample sampleDatabase .sample 100 ⟨0, none, 1, 1, [], false⟩).items.map Item.title =
      ["#1 Host down"]) ∧
        (collect .sample sampleDatabase .sample 100 ⟨0, none, 1, 1, [], false⟩).total = 2 := by
  obtain ⟨hitems, htotal⟩ := collect_page .sample sampleDatabase .sample 100 ⟨0, none, 1, 1, [], false⟩
    (by decide) (by decide)
  rw [hitems, htotal]
  exact ⟨by rfl, by rfl⟩

end Nodeglow.Changes
