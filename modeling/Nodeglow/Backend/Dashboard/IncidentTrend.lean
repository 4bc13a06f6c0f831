import Mathlib.Data.List.Basic
import Mathlib.Tactic.Linarith
import Mathlib.Tactic.Ring

/-!
# The incident trend

The dashboard counts the incidents of the last 14 days in buckets of 24 hours, from the local
midnight of today back, and labels a bucket with the local date of an hour after its start. Where
the clock has been changed within these days, the buckets before the change do not start at
midnight, and an incident near midnight is counted on the day before or after
(`not_trendByDay_autumn`).

Instants are numbers of microseconds since the start of 1970 in UTC, and days are numbers of days
since then. Dates have no bounds here.

## Main results

* `perDay_eq` — the count of a bucket is the number of incidents in it.
* `trendByDay_iff` — when the trend is by day.

Source: `backend/services/dashboard_v2.py`, lines 43, 411–429 and 961–974.
-/

namespace Nodeglow.Dashboard

/-- An hour. -/
def hour : ℤ := 3600000000

/-- A day of 24 hours. -/
def day : ℤ := 24 * hour

/-- `INCIDENT_TREND_DAYS`. -/
def incidentTrendDays : ℕ := 14

/-- A time zone: the UTC offset of an instant, whether its time on the wall comes for the second
time, and the offset of a time on the wall that comes for the first or for the second time. -/
structure Zone where
  offset : ℤ → ℤ
  fold : ℤ → Bool
  wallOffset : Bool → ℤ → ℤ
  wallOffset_fold : ∀ t, wallOffset (fold t) (t + offset t) = offset t

/-- The local date of an instant, as a number of days. -/
def Zone.date (zone : Zone) (t : ℤ) : ℤ := (t + zone.offset t) / day

/-- `_local_day_start_utc`; `replace` keeps the fold of the time it is used on. -/
def localDayStartUtc (zone : Zone) (now : ℤ) : ℤ :=
  let startLocal := zone.date now * day
  startLocal - zone.wallOffset (zone.fold now) startLocal

/-- `_local_date`. -/
def localDate (zone : Zone) (t : ℤ) : ℤ := zone.date (t + hour)

/-- An incident as the trend reads it. -/
structure Incident where
  createdAt : ℤ
  severity : String
deriving DecidableEq, Repr

/-- An entry of the trend. -/
structure Entry where
  date : ℤ
  count : ℕ
  critical : ℕ
  warning : ℕ
  info : ℕ
deriving DecidableEq, Repr

/-- One more incident; one of an unknown severity counts as information. -/
def Entry.add (e : Entry) (severity : String) : Entry :=
  { e with
    count := e.count + 1
    critical := if severity = "critical" then e.critical + 1 else e.critical
    warning := if severity = "warning" then e.warning + 1 else e.warning
    info := if severity ∈ ["critical", "warning"] then e.info else e.info + 1 }

/-- An entry with the start of its 24 hours. -/
structure Bucket where
  entry : Entry
  start : ℤ
deriving DecidableEq, Repr

/-- The bucket is that of an instant. -/
def Bucket.Has (b : Bucket) (created : ℤ) : Prop := b.start ≤ created ∧ created < b.start + day

instance (b : Bucket) (created : ℤ) : Decidable (b.Has created) := by
  unfold Bucket.Has
  infer_instance

def Bucket.add (b : Bucket) (severity : String) : Bucket := { b with entry := b.entry.add severity }

/-- `trend_since`. -/
def trendSince (zone : Zone) (now : ℤ) : ℤ :=
  localDayStartUtc zone now - day * (incidentTrendDays - 1 : ℕ)

/-- A bucket, without incidents. -/
def bucketAt (zone : Zone) (now : ℤ) (d : ℕ) : Bucket :=
  let start := trendSince zone now + day * d
  ⟨⟨localDate zone start, 0, 0, 0, 0⟩, start⟩

/-- The buckets. -/
def buckets (zone : Zone) (now : ℤ) : List Bucket :=
  (List.range incidentTrendDays).map (bucketAt zone now)

/-- An incident is counted in the first bucket that has it. -/
def countIn (incident : Incident) : List Bucket → List Bucket
  | [] => []
  | b :: bs =>
    if b.Has incident.createdAt then b.add incident.severity :: bs else b :: countIn incident bs

/-- The trend of the incidents of a tenant. -/
def perDay (zone : Zone) (now : ℤ) (incidents : List Incident) : List Entry :=
  ((incidents.filter fun i => trendSince zone now ≤ i.createdAt).foldl
    (fun bs i => countIn i bs) (buckets zone now)).map Bucket.entry

/-! ### A trend by day -/

/-- The first date of the trend. -/
def firstDate (zone : Zone) (now : ℤ) : ℤ := zone.date now - (incidentTrendDays - 1 : ℕ)

/-- The start of a local date; of a midnight that comes twice, the first one. -/
def midnight (zone : Zone) (date : ℤ) : ℤ := date * day - zone.wallOffset false (date * day)

/-- One incident counts one in the entry with a date, and nothing in the others. -/
def CountsAt (zone : Zone) (now : ℤ) (incidents : List Incident) (i : Incident) (date : ℤ) : Prop :=
  (∃ e ∈ perDay zone now incidents, e.date = date) ∧
    perDay zone now incidents = (perDay zone now (incidents.erase i)).map fun e =>
      if e.date = date then e.add i.severity else e

/-- **The trend is by day**: its dates are those of the last days, and every incident since the
local midnight of the first one counts one in the entry with the local date of its creation, and
nothing in the others. -/
structure TrendByDay (zone : Zone) (now : ℤ) (incidents : List Incident) : Prop where
  dates : (perDay zone now incidents).map Entry.date =
    (List.range incidentTrendDays).map fun d : ℕ => firstDate zone now + d
  counts : ∀ i ∈ incidents, midnight zone (firstDate zone now) ≤ i.createdAt → i.createdAt ≤ now →
    CountsAt zone now incidents i (zone.date i.createdAt)

/-- The offset of the last local midnight, as it is computed. -/
def midnightOffset (zone : Zone) (now : ℤ) : ℤ :=
  zone.wallOffset (zone.fold now) (zone.date now * day)

/-- The date of an instant with the offset of the last midnight in place of its own. -/
def fixedDate (zone : Zone) (now t : ℤ) : ℤ := (t + midnightOffset zone now) / day

/-- **The offset of the last midnight tells the dates**: an hour after the start of each bucket the
offset is at most an hour less and less than 23 hours more, and every incident of the days of the
trend has the same date, one of theirs, with it as with its own offset. -/
structure FixedDates (zone : Zone) (now : ℤ) (incidents : List Incident) : Prop where
  labels : ∀ b ∈ buckets zone now, midnightOffset zone now - hour ≤ zone.offset (b.start + hour) ∧
    zone.offset (b.start + hour) < midnightOffset zone now + 23 * hour
  incidents : ∀ i ∈ incidents, midnight zone (firstDate zone now) ≤ i.createdAt → i.createdAt ≤ now →
    firstDate zone now ≤ zone.date i.createdAt ∧ zone.date i.createdAt ≤ zone.date now ∧
      fixedDate zone now i.createdAt = zone.date i.createdAt

/-! ### The counts -/

section Counts

variable {zone : Zone} {now : ℤ} {incidents : List Incident} {i : Incident} {b : Bucket}
  {bs : List Bucket}

/-- What an incident does to a bucket. -/
def addTo (b : Bucket) (i : Incident) : Bucket := if b.Has i.createdAt then b.add i.severity else b

theorem addTo_start (b : Bucket) (i : Incident) : (addTo b i).start = b.start := by
  unfold addTo
  split_ifs <;> rfl

theorem foldl_addTo_start (incidents : List Incident) (b : Bucket) :
    (incidents.foldl addTo b).start = b.start := by
  induction incidents generalizing b with
  | nil => rfl
  | cons i incidents ih => rw [List.foldl_cons, ih, addTo_start]

theorem has_congr {b' : Bucket} (h : b'.start = b.start) (t : ℤ) : b'.Has t ↔ b.Has t := by
  rw [Bucket.Has, Bucket.Has, h]

theorem foldl_addTo_date (incidents : List Incident) (b : Bucket) :
    (incidents.foldl addTo b).entry.date = b.entry.date := by
  induction incidents generalizing b with
  | nil => rfl
  | cons i incidents ih =>
    rw [List.foldl_cons, ih, addTo]
    split_ifs <;> rfl

theorem add_ne_self (e : Entry) (severity : String) : e.add severity ≠ e := fun h =>
  Nat.succ_ne_self e.count (congrArg Entry.count h)

/-- Incidents can be counted in any order. -/
theorem addTo_comm (b : Bucket) (i j : Incident) : addTo (addTo b i) j = addTo (addTo b j) i := by
  have hi (k : Incident) : (b.add k.severity).Has i.createdAt ↔ b.Has i.createdAt := has_congr rfl _
  have hj (k : Incident) : (b.add k.severity).Has j.createdAt ↔ b.Has j.createdAt := has_congr rfl _
  by_cases hbi : b.Has i.createdAt <;> by_cases hbj : b.Has j.createdAt <;>
    simp only [addTo, hbi, hbj, hi, hj, if_true, if_false]
  simp only [Bucket.add, Entry.add, List.mem_cons, List.not_mem_nil, or_false]
  split_ifs <;> rfl

/-- Buckets that do not overlap: an incident is counted in the one that has it. -/
theorem countIn_eq (hbs : bs.Pairwise fun b b' => b.start + day ≤ b'.start) (i : Incident) :
    countIn i bs = bs.map fun b => addTo b i := by
  induction bs with
  | nil => rfl
  | cons b bs ih =>
    obtain ⟨hb, hbs⟩ := List.pairwise_cons.mp hbs
    rw [countIn, List.map_cons, addTo]
    split_ifs with hhas
    · have hrest : bs.map (fun b => addTo b i) = bs := by
        refine (List.map_congr_left fun b' hb' => ?_).trans (List.map_id _)
        refine if_neg fun hhas' => ?_
        have hlt := hhas.2.trans_le (hb b' hb')
        exact absurd hhas'.1 (not_le.mpr hlt)
      rw [hrest]
    · rw [ih hbs]

theorem foldl_countIn (hbs : bs.Pairwise fun b b' => b.start + day ≤ b'.start)
    (incidents : List Incident) :
    incidents.foldl (fun bs i => countIn i bs) bs = bs.map fun b => incidents.foldl addTo b := by
  induction incidents generalizing bs with
  | nil => simp
  | cons i incidents ih =>
    have hnext : (bs.map fun b => addTo b i).Pairwise fun b b' => b.start + day ≤ b'.start := by
      rw [List.pairwise_map]
      simpa only [addTo_start] using hbs
    rw [List.foldl_cons, countIn_eq hbs, ih hnext, List.map_map]
    rfl

theorem pairwise_buckets (zone : Zone) (now : ℤ) :
    (buckets zone now).Pairwise fun b b' => b.start + day ≤ b'.start := by
  rw [buckets, List.pairwise_map]
  refine List.pairwise_lt_range.imp fun {d d'} hlt => ?_
  have hle : (d : ℤ) + 1 ≤ d' := by exact_mod_cast hlt
  have hday : 0 < day := by decide
  simp only [bucketAt]
  nlinarith [mul_le_mul_of_nonneg_left hle hday.le]

theorem mem_buckets : b ∈ buckets zone now ↔ ∃ d < incidentTrendDays, bucketAt zone now d = b := by
  simp [buckets]

theorem trendSince_le_start (hb : b ∈ buckets zone now) : trendSince zone now ≤ b.start := by
  obtain ⟨d, -, rfl⟩ := mem_buckets.mp hb
  have hday : 0 ≤ day * (d : ℤ) := mul_nonneg (by decide) (Int.natCast_nonneg d)
  exact le_add_of_nonneg_right hday

/-- What is left out of the trend would be counted in no bucket. -/
theorem foldl_addTo_filter {since : ℤ} (hb : since ≤ b.start) (incidents : List Incident) :
    (incidents.filter fun i => since ≤ i.createdAt).foldl addTo b = incidents.foldl addTo b := by
  induction incidents generalizing b with
  | nil => rfl
  | cons i incidents ih =>
    by_cases hsince : since ≤ i.createdAt
    · rw [List.filter_cons_of_pos (by simpa using hsince), List.foldl_cons, List.foldl_cons,
        ih (hb.trans_eq (addTo_start b i).symm)]
    · have hnot : ¬b.Has i.createdAt := fun h => hsince (hb.trans h.1)
      rw [List.filter_cons_of_neg (by simpa using hsince), List.foldl_cons, addTo, if_neg hnot,
        ih hb]

/-- **The entries of the trend**: each counts the incidents in its bucket. -/
theorem perDay_eq (zone : Zone) (now : ℤ) (incidents : List Incident) :
    perDay zone now incidents =
      (buckets zone now).map fun b => (incidents.foldl addTo b).entry := by
  rw [perDay, foldl_countIn (pairwise_buckets zone now), List.map_map]
  refine List.map_congr_left fun b hb => congrArg Bucket.entry ?_
  exact foldl_addTo_filter (trendSince_le_start hb) incidents

theorem map_date_perDay (zone : Zone) (now : ℤ) (incidents : List Incident) :
    (perDay zone now incidents).map Entry.date =
      (buckets zone now).map fun b => b.entry.date := by
  rw [perDay_eq, List.map_map]
  exact List.map_congr_left fun b _ => foldl_addTo_date incidents b

/-- An incident more is one more in the entry of its bucket. -/
theorem perDay_erase (hi : i ∈ incidents) :
    perDay zone now incidents = (buckets zone now).map fun b =>
      (addTo ((incidents.erase i).foldl addTo b) i).entry := by
  rw [perDay_eq]
  refine List.map_congr_left fun b _ => congrArg Bucket.entry ?_
  have hperm : incidents.Perm (incidents.erase i ++ [i]) :=
    (List.perm_cons_erase hi).trans (List.perm_append_singleton i _).symm
  rw [hperm.foldl_eq' fun i _ j _ b => addTo_comm b i j, List.foldl_append]
  rfl

/-- **One incident counts at a date** exactly where the bucket with the date, and no other one, has
it. -/
theorem countsAt_iff (hi : i ∈ incidents) (date : ℤ) : CountsAt zone now incidents i date ↔
    (∃ b ∈ buckets zone now, b.entry.date = date) ∧
      ∀ b ∈ buckets zone now, b.Has i.createdAt ↔ b.entry.date = date := by
  have hdates : (∃ e ∈ perDay zone now incidents, e.date = date) ↔
      ∃ b ∈ buckets zone now, b.entry.date = date := by
    simpa using congrArg (date ∈ ·) (map_date_perDay zone now incidents)
  rw [CountsAt, hdates, perDay_erase hi, perDay_eq, List.map_map, List.map_inj_left]
  refine and_congr_right fun _ => forall₂_congr fun b hb => ?_
  have hdate := foldl_addTo_date (incidents.erase i) b
  have hhas := has_congr (foldl_addTo_start (incidents.erase i) b) i.createdAt
  rw [Function.comp_apply, hdate, addTo]
  simp only [hhas]
  split_ifs with h1 h2 h2
  · simp [h1, h2, Bucket.add]
  · simp [h1, h2, Bucket.add, add_ne_self]
  · simp [h1, h2, (add_ne_self _ _).symm]
  · simp [h1, h2]

end Counts

/-! ### Dates and offsets -/

section Offsets

variable {zone : Zone} {now : ℤ} {b : Bucket}

theorem bucketAt_start (zone : Zone) (now : ℤ) (d : ℕ) : (bucketAt zone now d).start =
    (firstDate zone now + d) * day - midnightOffset zone now := by
  simp only [bucketAt, trendSince, localDayStartUtc, firstDate, midnightOffset]
  ring

/-- The buckets stand at the dates of the trend. -/
theorem exists_start_eq (hb : b ∈ buckets zone now) : ∃ d < incidentTrendDays,
    b.start = (firstDate zone now + d) * day - midnightOffset zone now ∧
      b.entry.date = localDate zone b.start := by
  obtain ⟨d, hd, rfl⟩ := mem_buckets.mp hb
  exact ⟨d, hd, bucketAt_start zone now d, rfl⟩

/-- A bucket has the instants whose date, with the offset of the last midnight, is its date in the
order of the buckets. -/
theorem has_iff {d : ℕ} (hstart : b.start = (firstDate zone now + d) * day - midnightOffset zone now)
    (t : ℤ) : b.Has t ↔ fixedDate zone now t = firstDate zone now + d := by
  rw [Bucket.Has, hstart, fixedDate, day, hour]
  omega

/-- The label of a bucket is its date in the order of the buckets exactly where the offset is about
that of the last midnight. -/
theorem localDate_iff {d : ℕ}
    (hstart : b.start = (firstDate zone now + d) * day - midnightOffset zone now) :
    localDate zone b.start = firstDate zone now + d ↔
      midnightOffset zone now - hour ≤ zone.offset (b.start + hour) ∧
        zone.offset (b.start + hour) < midnightOffset zone now + 23 * hour := by
  rw [localDate, Zone.date]
  generalize zone.offset (b.start + hour) = offset
  rw [hstart, day, hour]
  omega

/-- The dates of the trend are those of the last days exactly where the offset is about that of the
last midnight. -/
theorem dates_iff (zone : Zone) (now : ℤ) (incidents : List Incident) :
    (perDay zone now incidents).map Entry.date =
        (List.range incidentTrendDays).map (fun d : ℕ => firstDate zone now + d) ↔
      ∀ b ∈ buckets zone now, midnightOffset zone now - hour ≤ zone.offset (b.start + hour) ∧
        zone.offset (b.start + hour) < midnightOffset zone now + 23 * hour := by
  rw [map_date_perDay, buckets, List.map_map, List.map_inj_left, List.forall_mem_map]
  exact forall₂_congr fun d _ => localDate_iff (bucketAt_start zone now d)

theorem FixedDates.trendByDay {incidents : List Incident} (h : FixedDates zone now incidents) :
    TrendByDay zone now incidents := by
  refine ⟨(dates_iff zone now incidents).mpr h.labels, fun i hi hsince huntil => ?_⟩
  obtain ⟨hfirst, hlast, hfixed⟩ := h.incidents i hi hsince huntil
  have hdate {b : Bucket} (hb : b ∈ buckets zone now) {d : ℕ}
      (hstart : b.start = (firstDate zone now + d) * day - midnightOffset zone now) :
      localDate zone b.start = firstDate zone now + d := (localDate_iff hstart).mpr (h.labels b hb)
  rw [countsAt_iff hi]
  constructor
  · obtain ⟨d, hd⟩ := Int.eq_ofNat_of_zero_le (sub_nonneg.mpr hfirst)
    have hlt : d < incidentTrendDays := by
      simp only [firstDate, incidentTrendDays] at hd ⊢
      omega
    have hb : bucketAt zone now d ∈ buckets zone now := mem_buckets.mpr ⟨d, hlt, rfl⟩
    exact ⟨_, hb, (hdate hb (bucketAt_start zone now d)).trans (by omega)⟩
  · intro b hb
    obtain ⟨d, -, hstart, hlabel⟩ := exists_start_eq hb
    rw [has_iff hstart, hfixed, hlabel, hdate hb hstart, eq_comm]

theorem TrendByDay.fixedDates {incidents : List Incident} (h : TrendByDay zone now incidents) :
    FixedDates zone now incidents := by
  have hlabels := (dates_iff zone now incidents).mp h.dates
  refine ⟨hlabels, fun i hi hsince huntil => ?_⟩
  obtain ⟨⟨b, hb, hdate⟩, hcount⟩ := (countsAt_iff hi _).mp (h.counts i hi hsince huntil)
  obtain ⟨d, hd, hstart, hlabel⟩ := exists_start_eq hb
  have hfixed := (has_iff hstart i.createdAt).mp ((hcount b hb).mpr hdate)
  have hname : b.entry.date = firstDate zone now + d :=
    hlabel.trans ((localDate_iff hstart).mpr (hlabels b hb))
  have hlast : zone.date now = firstDate zone now + (incidentTrendDays - 1 : ℕ) := by
    simp [firstDate]
  have hle : d ≤ incidentTrendDays - 1 := Nat.le_sub_one_of_lt hd
  rw [← hdate, hname]
  refine ⟨?_, ?_, hfixed⟩
  · exact le_add_of_nonneg_right (Int.natCast_nonneg d)
  · rw [hlast]
    exact add_le_add_right (Int.ofNat_le.mpr hle) _

end Offsets

/-- **When the trend is by day**: exactly where the offset of the last midnight tells the dates. -/
theorem trendByDay_iff (zone : Zone) (now : ℤ) (incidents : List Incident) :
    TrendByDay zone now incidents ↔ FixedDates zone now incidents :=
  ⟨TrendByDay.fixedDates, FixedDates.trendByDay⟩


/-! ### A change of the clock -/

/-- A zone whose offset changes once. A time on the wall that is skipped has the offset before the
change the first time, and the one after it the second time. -/
def Zone.change (instant before after : ℤ) : Zone where
  offset t := if t < instant then before else after
  fold t := instant ≤ t ∧ t - instant < before - after
  wallOffset second w :=
    if w < instant + (if second then min before after else max before after) then before else after
  wallOffset_fold t := by
    by_cases ht : t < instant
    · have hfold : ¬(instant ≤ t ∧ t - instant < before - after) := fun h => by omega
      simp only [ht, hfold, if_true, decide_false, Bool.false_eq_true, if_false]
      exact if_pos (by omega)
    · by_cases hfold : t - instant < before - after
      · have hnot : ¬t + after < instant + min before after := by omega
        simp [ht, hfold, hnot, not_lt.mp ht]
      · have hnot : ¬t + after < instant + max before after := by omega
        simp [ht, hfold, hnot]

/-- The end of summer time, at three o'clock in the night of a day. -/
def Zone.autumn : Zone := Zone.change (100 * day + hour) (2 * hour) hour

/-- **An incident of half past midnight**, of the days before the clock was changed, is counted on
the day before. -/
theorem not_trendByDay_autumn :
    ¬TrendByDay Zone.autumn (103 * day + 12 * hour) [⟨95 * day + 22 * hour + hour / 2, "warning"⟩] := by
  intro h
  have hdate := h.fixedDates.incidents _ (List.mem_singleton.mpr rfl) (by decide) (by decide)
  exact absurd hdate.2.2 (by decide)

end Nodeglow.Dashboard
