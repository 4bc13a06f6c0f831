import Mathlib.Data.Int.Notation
import Mathlib.Data.List.Basic

/-!
# Maintenance

A host is in maintenance when its flag is set and has not ended, or when an enabled maintenance
window that covers it is active. A window is active once, from one instant to another, or weekly: it
starts at a time of day on some days of the week, in a time zone, and lasts a number of minutes. The
lookup goes back from the local date of now, as many days as the window can last.

Instants are numbers of microseconds since the start of 1970 in UTC, and days are numbers of days
since then. The database of time zones is a parameter.

Source: `backend/services/maintenance.py`, lines 41–56 and 156–182 and 209–271;
`backend/models/ping.py`.
-/

namespace Nodeglow.Maintenance

/-- `PingHost`. -/
structure PingHost where
  id : ℕ
  name : String
  hostname : String
  source : String
  maintenance : Bool
  maintenanceUntil : Option ℤ
deriving DecidableEq, Repr

/-- The kinds of windows. A malformed row becomes an invalid window. -/
inductive Kind
  | weekly | once | invalid
deriving DecidableEq, Repr

/-- `WindowSpec`. The start time is in minutes after midnight. -/
structure WindowSpec where
  id : ℕ
  name : String
  kind : Kind
  enabled : Bool
  weekdays : List ℕ
  startTime : Option ℕ
  durationMinutes : ℤ
  startsAt : Option ℤ
  endsAt : Option ℤ
  tz : String
  allHosts : Bool
  hostIds : List ℕ
deriving DecidableEq, Repr

/-- `WindowSpec.covers`. -/
def WindowSpec.covers (w : WindowSpec) (hostId : ℕ) : Bool := w.allHosts || hostId ∈ w.hostIds

/-- A time zone: the local date of an instant, and the instant of a time of day on a date. -/
structure Zone where
  localDate : ℤ → ℤ
  instant : ℤ → ℕ → ℤ

/-- `date.weekday`: Monday is 0. The days are counted from a Thursday. -/
def weekday (day : ℤ) : ℕ := ((day + 3) % 7).toNat

/-- One minute, in microseconds. -/
def oneMinute : ℤ := 60 * 1000000

/-- The occurrence that starts on a day, where it is active. -/
def WindowSpec.occurrenceOn (w : WindowSpec) (zone : Zone) (startTime : ℕ) (now day : ℤ) :
    Option (ℤ × ℤ) :=
  let start := zone.instant day startTime
  let stop := start + w.durationMinutes * oneMinute
  if weekday day ∈ w.weekdays ∧ start ≤ now ∧ now < stop then some (start, stop) else none

/-- `occurrence_at`: the start and the end of the occurrence that is active now. -/
def occurrenceAt (zoneInfo : String → Zone) (w : WindowSpec) (now : ℤ) : Option (ℤ × ℤ) :=
  if !w.enabled then none
  else match w.kind, w.startsAt, w.endsAt, w.startTime with
    | .once, some startsAt, some endsAt, _ =>
      if startsAt ≤ now ∧ now < endsAt then some (startsAt, endsAt) else none
    | .weekly, _, _, some startTime =>
      if w.weekdays = [] ∨ w.durationMinutes ≤ 0 then none
      else
        let zone := zoneInfo w.tz
        let lookback := (w.durationMinutes / (24 * 60)).toNat + 1
        (List.range (lookback + 1)).findSome? fun back : ℕ =>
          w.occurrenceOn zone startTime now (zone.localDate now - (back : ℤ))
    | _, _, _, _ => none

/-- `MAX_OCCURRENCE_SPAN_DAYS`. -/
def maxOccurrenceSpanDays : ℕ := 62

/-- `occurrences_between`: the occurrences that start from one instant on and before another one. -/
def occurrencesBetween (zoneInfo : String → Zone) (w : WindowSpec) (start stop : ℤ) :
    List (ℤ × ℤ) :=
  if !w.enabled ∨ stop ≤ start then []
  else
    let start := max start (stop - maxOccurrenceSpanDays * (24 * 60) * oneMinute)
    match w.kind, w.startsAt, w.endsAt, w.startTime with
    | .once, some startsAt, some endsAt, _ =>
      if start ≤ startsAt ∧ startsAt < stop then [(startsAt, endsAt)] else []
    | .weekly, _, _, some startTime =>
      if w.weekdays = [] ∨ w.durationMinutes ≤ 0 then []
      else
        let zone := zoneInfo w.tz
        let first := zone.localDate start - 1
        let last := zone.localDate stop + 1
        (List.range (last + 1 - first).toNat).filterMap fun i : ℕ =>
          let s := zone.instant (first + i) startTime
          if weekday (first + i) ∈ w.weekdays ∧ start ≤ s ∧ s < stop then
            some (s, s + w.durationMinutes * oneMinute)
          else none
    | _, _, _, _ => []

/-- `manual_maintenance`. -/
def manualMaintenance (host : PingHost) (now : ℤ) : Bool :=
  host.maintenance && match host.maintenanceUntil with
    | none => true
    | some stop => now < stop

/-- `active_window_for`. -/
def activeWindowFor (zoneInfo : String → Zone) (host : PingHost) (now : ℤ)
    (windows : List WindowSpec) : Option WindowSpec :=
  windows.find? fun w => w.covers host.id && (occurrenceAt zoneInfo w now).isSome

/-- `is_in_maintenance`. -/
def isInMaintenance (zoneInfo : String → Zone) (host : PingHost) (now : ℤ)
    (windows : List WindowSpec) : Bool :=
  manualMaintenance host now || (activeWindowFor zoneInfo host now windows).isSome

end Nodeglow.Maintenance
