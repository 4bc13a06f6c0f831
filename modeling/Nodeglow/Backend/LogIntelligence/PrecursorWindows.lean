import Mathlib.Data.List.Sort
import Nodeglow.Foundation.Intervals
import Nodeglow.Foundation.OrderedDict

/-!
# Merged precursor windows

The messages of the five minutes before an event are its precursors. The events of a host are put
together, and where their windows touch or overlap they become one range, so that no message is read
twice. Each host has ranges in order and without overlap, and they cover the windows of its events.

Times are in microseconds.

## Main results

* `get_byHost` — the times of a host.
* `mergePrecursorWindows_spec` — the ranges of each host.

Source: `backend/services/log_intelligence.py`, lines 962–995.
-/

namespace Nodeglow.LogIntelligence

/-- A `datetime`: a time in UTC, or a local time with its offset. -/
inductive Timestamp
  | naive (time : ℤ)
  | aware (localTime offset : ℤ)

/-- `_naive_utc`. -/
def naiveUtc : Timestamp → ℤ
  | .naive time => time
  | .aware localTime offset => localTime - offset

/-- `PRECURSOR_WINDOW`. -/
def precursorWindow : ℤ := 5 * 60 * 1000000

/-- An event: its host, if it has one, and its time. -/
abbrev PrecursorEvent := Option ℤ × Timestamp

/-- `int(hid or 0)`. -/
def hostOf (e : PrecursorEvent) : ℤ := e.1.getD 0

/-- The window of an event. -/
def windowOf (ts : ℤ) : ℤ × ℤ := (ts - precursorWindow, ts)

/-- An event is put to the others of its host. -/
def addEvent (byHost : OrderedDict ℤ (List ℤ)) (e : PrecursorEvent) : OrderedDict ℤ (List ℤ) :=
  byHost.set (hostOf e) ((byHost.get (hostOf e)).getD [] ++ [naiveUtc e.2])

/-- The times of each host. -/
def byHost (events : List PrecursorEvent) : OrderedDict ℤ (List ℤ) :=
  events.foldl addEvent .empty

/-- The merged windows of one host. -/
def mergeStamps (stamps : List ℤ) : List (ℤ × ℤ) :=
  (stamps.mergeSort (· ≤ ·)).foldl (fun ranges ts => Intervals.mergeNext ranges (windowOf ts)) []

/-- `_merge_precursor_windows`. -/
def mergePrecursorWindows (events : List PrecursorEvent) : OrderedDict ℤ (List (ℤ × ℤ)) :=
  (byHost events).items.foldl (fun merged e => merged.set e.1 (mergeStamps e.2)) .empty

variable {events : List PrecursorEvent} {e : PrecursorEvent} {host ts x : ℤ} {stamps : List ℤ}

/-! ### The times of a host -/

/-- The times of the events of a host. -/
def stampsOf (host : ℤ) (events : List PrecursorEvent) : List ℤ :=
  (events.filter fun e => hostOf e = host).map fun e => naiveUtc e.2

theorem mem_stampsOf : ts ∈ stampsOf host events ↔
    ∃ e ∈ events, hostOf e = host ∧ naiveUtc e.2 = ts := by
  simp only [stampsOf, List.mem_map, List.mem_filter, decide_eq_true_eq, and_assoc]

theorem stampsOf_concat (host : ℤ) (events : List PrecursorEvent) (e : PrecursorEvent) :
    stampsOf host (events ++ [e]) =
      if hostOf e = host then stampsOf host events ++ [naiveUtc e.2] else stampsOf host events := by
  rw [stampsOf, List.filter_append, List.map_append]
  split_ifs with hhost
  · rw [List.filter_cons_of_pos (by simpa using hhost)]
    rfl
  · rw [List.filter_cons_of_neg (by simpa using hhost)]
    exact List.append_nil _

/-- **The times of a host** are those of its events, in their order. -/
theorem get_byHost (host : ℤ) (events : List PrecursorEvent) : (byHost events).get host =
    if stampsOf host events = [] then none else some (stampsOf host events) := by
  induction events using List.reverseRecOn with
  | nil => rfl
  | append_singleton events e ih =>
    rw [byHost, List.foldl_append, List.foldl_cons, List.foldl_nil, addEvent, OrderedDict.get_set,
      stampsOf_concat]
    change (if host = hostOf e then some (((byHost events).get _).getD [] ++ [naiveUtc e.2]) else
      (byHost events).get host) = _
    by_cases hhost : host = hostOf e
    · subst hhost
      have hstamps : ((byHost events).get (hostOf e)).getD [] = stampsOf (hostOf e) events := by
        rw [ih]
        split_ifs with hnil
        · exact hnil.symm
        · rfl
      rw [if_pos rfl, if_pos rfl, hstamps, if_neg (by simp)]
    · rw [if_neg hhost, if_neg (Ne.symm hhost), ih]

/-! ### The ranges -/

/-- The ranges of a host. -/
theorem merged_mergeStamps (stamps : List ℤ) :
    Intervals.Merged (mergeStamps stamps) ((stamps.mergeSort (· ≤ ·)).map windowOf) := by
  have hsorted : (stamps.mergeSort (· ≤ ·)).Pairwise (· ≤ ·) := by
    have h : (stamps.mergeSort (· ≤ ·)).Pairwise fun a b => decide (a ≤ b) = true :=
      List.pairwise_mergeSort (fun a b c => by simpa using le_trans)
        (fun a b => by simpa using le_total a b) stamps
    simpa using h
  rw [mergeStamps, ← List.foldl_map]
  refine Intervals.merged_merge (fun w hw => ?_) (List.pairwise_map.mpr (hsorted.imp fun hle => ?_))
  · obtain ⟨ts, -, rfl⟩ := List.mem_map.mp hw
    exact Int.sub_le_self ts (by decide)
  · exact Int.sub_le_sub_right hle _

/-- **The points of the ranges** are those of the windows. -/
theorem covers_mergeStamps (stamps : List ℤ) (x : ℤ) : Intervals.Covers (mergeStamps stamps) x ↔
    ∃ ts ∈ stamps, ts - precursorWindow ≤ x ∧ x ≤ ts := by
  rw [(merged_mergeStamps stamps).covers]
  simp only [Intervals.Covers, List.mem_map, List.mem_mergeSort, exists_exists_and_eq_and, windowOf]

theorem get_mergePrecursorWindows (host : ℤ) (events : List PrecursorEvent) :
    (mergePrecursorWindows events).get host = ((byHost events).get host).map mergeStamps := by
  refine Option.ext fun ranges => ?_
  have hfold : mergePrecursorWindows events =
      ((byHost events).items.map fun e => (e.1, mergeStamps e.2)).foldl
        (fun merged e => merged.set e.1 e.2) .empty := by
    rw [mergePrecursorWindows, List.foldl_map]
  have hnodup : (((byHost events).items.map fun e => (e.1, mergeStamps e.2)).map Prod.fst).Nodup := by
    rw [List.map_map]
    exact (byHost events).nodup
  rw [hfold, OrderedDict.get_foldl_set hnodup, Option.map_eq_some_iff, List.mem_map]
  constructor
  · rintro (⟨⟨host, stamps⟩, hmem, heq⟩ | ⟨-, hempty⟩)
    · obtain ⟨rfl, rfl⟩ := Prod.mk.inj heq
      exact ⟨stamps, OrderedDict.mem_items.mp hmem, rfl⟩
    · cases hempty
  · rintro ⟨stamps, hget, rfl⟩
    exact .inl ⟨(host, stamps), OrderedDict.mem_items.mpr hget, rfl⟩

/-- **The ranges of each host** that has an event are in the order of their starts and without
overlap, and they cover the windows of its events. -/
theorem mergePrecursorWindows_spec (events : List PrecursorEvent) (host : ℤ) :
    ((mergePrecursorWindows events).get host = none ↔ ∀ e ∈ events, hostOf e ≠ host) ∧
      ∀ ranges, (mergePrecursorWindows events).get host = some ranges →
        Intervals.Separated ranges ∧ ∀ x, Intervals.Covers ranges x ↔
          ∃ e ∈ events, hostOf e = host ∧
            naiveUtc e.2 - precursorWindow ≤ x ∧ x ≤ naiveUtc e.2 := by
  rw [get_mergePrecursorWindows, Option.map_eq_none_iff, get_byHost]
  constructor
  · rw [ite_eq_left_iff, imp_iff_not (Option.some_ne_none _), not_not,
      List.eq_nil_iff_forall_not_mem]
    simp only [mem_stampsOf, not_exists, not_and]
    exact ⟨fun h e he hhost => h _ e he hhost rfl, fun h _ e he hhost => absurd hhost (h e he)⟩
  · intro ranges hranges
    obtain ⟨stamps, hstamps, rfl⟩ := Option.map_eq_some_iff.mp hranges
    split_ifs at hstamps with hnil
    obtain rfl := Option.some.inj hstamps
    refine ⟨(merged_mergeStamps _).separated, fun x => ?_⟩
    rw [covers_mergeStamps]
    simp only [mem_stampsOf]
    constructor
    · rintro ⟨_, ⟨e, he, hhost, rfl⟩, hx⟩
      exact ⟨e, he, hhost, hx⟩
    · rintro ⟨e, he, hhost, hx⟩
      exact ⟨_, ⟨e, he, hhost, rfl⟩, hx⟩

end Nodeglow.LogIntelligence
