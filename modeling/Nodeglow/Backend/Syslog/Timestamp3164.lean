import Nodeglow.Backend.Syslog.Parser
import Nodeglow.Foundation.Strptime

/-!
# The timestamps of RFC 3164

A timestamp of RFC 3164 has no year. The parser reads it with the year 1900 and puts the current
year in its place. At the turn of the year that is the wrong one. As 1900 has no 29th of February,
the timestamp of such a day is not read at all, and the current time is returned.

## Main results

* `strptime_timestamp`, `parse3164Ts_leapDay`, `parse3164Ts_otherDay` — what is read.
* `parse3164Ts_eq_iff` — when an instant comes back.

Source: `backend/services/syslog.py`, lines 115–134.
-/

namespace Nodeglow.Syslog

open Calendar (Date DateTime)
open Strptime (strptime Directive Item)

/-- `_RFC3164_TS_FMTS`. -/
def rfc3164TsFmts : List String := ["%b %d %H:%M:%S", "%b  %d %H:%M:%S"]

/-- `_parse_3164_ts`, at a current time. -/
def parse3164Ts (now : DateTime) (tsStr : String) : DateTime :=
  (rfc3164TsFmts.findSome? fun fmt =>
    (strptime tsStr fmt).bind fun dt => dt.replaceYear now.date.year).getD now

/-- The day of a timestamp: two characters, with a space in place of a zero. -/
def paddedDay (day : ℕ) : List Char :=
  if day < 10 then ' ' :: Strptime.digits day else Strptime.digits day

/-- The timestamp of an instant, to the second. -/
def timestamp3164 (t : DateTime) : String :=
  String.ofList (Strptime.monthName t.date.month ++ ' ' :: (paddedDay t.date.day ++ ' ' ::
    (Strptime.two t.hour ++ ':' :: (Strptime.two t.minute ++ ':' :: Strptime.two t.second))))

variable {t now : DateTime}

/-- The parts of the formats. -/
def timestampItems : List Item :=
  [.directive .month, .spaces, .directive .day, .spaces, .directive .hour, .literal ':',
    .directive .minute, .literal ':', .directive .second]

/-- The two formats are the same. -/
theorem items_of_mem : ∀ fmt ∈ rfc3164TsFmts, Strptime.items fmt.toList = some timestampItems := by
  decide

/-! ### The match -/

/-- The white space before the day. -/
theorem firstMatch_spaces_day {day : ℕ} (hlow : 1 ≤ day) (hhigh : day ≤ 31) (b : List Char) :
    Item.spaces.re.firstMatch (' ' :: (paddedDay day ++ b)) =
      some ([], Strptime.digits day ++ b) := by
  have hdigits : ∀ n ≤ 31, 1 ≤ n →
      ((Strptime.digits n).all fun c => Text.isSpace c = false) = true := by
    decide
  have hends (a : List Char) : Regex.Ends Text.isSpace none a (Strptime.digits day ++ b) := by
    have hne : Strptime.digits day ≠ [] := by
      rw [Strptime.digits]
      split_ifs <;> exact List.cons_ne_nil _ _
    refine .inr fun c hc => ?_
    rw [List.head?_append_of_ne_nil _ hne] at hc
    exact Text.forall_mem_of_all (hdigits day hhigh hlow) c (List.mem_of_head? hc)
  rw [paddedDay]
  split_ifs
  · exact Regex.firstMatch_chars (a := [' ', ' ']) (Text.forall_mem_of_all rfl) (by decide)
      (fun _ h => absurd h (Option.some_ne_none _).symm) (hends _)
  · exact Regex.firstMatch_chars (a := [' ']) (Text.forall_mem_of_all rfl) (by decide)
      (fun _ h => absurd h (Option.some_ne_none _).symm) (hends _)

theorem firstMatch_spaces_two {n : ℕ} (hn : n < 60) (b : List Char) :
    Item.spaces.re.firstMatch (' ' :: (Strptime.two n ++ b)) = some ([], Strptime.two n ++ b) := by
  have hdigit : ∀ n < 60, Text.isSpace (Nat.digitChar (n / 10)) = false := by decide
  exact Regex.firstMatch_chars (a := [' ']) (Text.forall_mem_of_all rfl) (by decide) nofun
    (.cons (hdigit n hn))

/-- **The fields of a timestamp.** -/
theorem firstMatch_timestamp (t : DateTime) :
    (Strptime.formatRe timestampItems).firstMatch (timestamp3164 t).toList =
      some ([Strptime.monthName t.date.month, Strptime.digits t.date.day, Strptime.two t.hour,
        Strptime.two t.minute, Strptime.two t.second], []) := by
  have hne {r : Regex} {rs : List Regex} : r :: rs ≠ [] := List.cons_ne_nil _ _
  have hcolon (b : List Char) : (Item.literal ':').re.firstMatch (':' :: b) = some ([], b) :=
    Strptime.firstMatch_one (by decide)
  -- The fields from the last one on.
  have hsecond : (Regex.concat [.group Directive.second.re]).firstMatch (Strptime.two t.second) =
      some ([Strptime.two t.second], []) :=
    Regex.firstMatch_group (b := []) (m := ([], [])) (Strptime.firstMatch_second t.second_lt)
  have hminute := Regex.firstMatch_concat_group hne (Strptime.firstMatch_minute t.minute_lt)
    (Regex.firstMatch_concat_cons hne (hcolon _) hsecond)
  have hhour := Regex.firstMatch_concat_group hne (Strptime.firstMatch_hour t.hour_lt)
    (Regex.firstMatch_concat_cons hne (hcolon _) hminute)
  have hspaces := Regex.firstMatch_concat_cons hne
    (firstMatch_spaces_two (t.hour_lt.trans (by decide)) _) hhour
  have hdayMatch := Regex.firstMatch_concat_group hne
    (Strptime.firstMatch_day t.date.one_le_day t.date.day_le_thirtyOne) hspaces
  have hmonth := Regex.firstMatch_concat_group hne
    (Strptime.firstMatch_month t.date.one_le_month t.date.month_le)
    (Regex.firstMatch_concat_cons hne
      (firstMatch_spaces_day t.date.one_le_day t.date.day_le_thirtyOne _) hdayMatch)
  rw [timestamp3164, String.toList_ofList]
  exact hmonth

/-! ### The instant -/

/-- **What a format reads**: the instant in the year 1900. -/
theorem strptime_timestamp {fmt : String} (hfmt : fmt ∈ rfc3164TsFmts) (t : DateTime) :
    strptime (timestamp3164 t) fmt =
      DateTime.make 1900 t.date.month t.date.day t.hour t.minute t.second := by
  have hsixty : t.hour < 60 := t.hour_lt.trans (by decide)
  rw [strptime, items_of_mem fmt hfmt]
  simp only [Option.bind_eq_bind, Option.bind_some, firstMatch_timestamp, ne_eq, not_true_eq_false,
    if_false]
  simp only [timestampItems, Strptime.directives, List.filterMap_cons, List.filterMap_nil,
    List.zip_cons_cons, List.zip_nil_right, List.foldlM_cons, List.foldlM_nil, Strptime.Fields.set,
    Strptime.readMonth_monthName t.date.one_le_month t.date.month_le,
    Strptime.readInt_digits _ t.date.day_le_thirtyOne, Strptime.readInt_two _ hsixty,
    Strptime.readInt_two _ t.minute_lt, Strptime.readInt_two _ t.second_lt, Option.map_some,
    Option.bind_eq_bind, Option.bind_some, Option.pure_def]

/-- On a 29th of February the current time is returned: 1900 has no such day. -/
theorem parse3164Ts_leapDay (now : DateTime) (h : t.date.IsLeapDay) :
    parse3164Ts now (timestamp3164 t) = now := by
  have hnone : ∀ fmt ∈ rfc3164TsFmts, strptime (timestamp3164 t) fmt = none := by
    intro fmt hfmt
    rw [strptime_timestamp hfmt, DateTime.make, Date.make_leapDay h.1 h.2 (by decide)]
    rfl
  rw [parse3164Ts, List.findSome?_eq_none_iff.mpr fun fmt hfmt => by rw [hnone fmt hfmt]; rfl]
  rfl

/-- On any other day the instant is moved to the current year. -/
theorem parse3164Ts_otherDay (now : DateTime) (h : ¬t.date.IsLeapDay) :
    ∃ d : Date, (d.year = now.date.year ∧ d.month = t.date.month ∧ d.day = t.date.day) ∧
      parse3164Ts now (timestamp3164 t) = { t.toSecond with date := d } := by
  obtain ⟨d₀, hmake₀, -, hmonth, hday⟩ := t.date.exists_make h (show 1 ≤ 1900 by decide) (by decide)
  obtain ⟨d, hmake, hd⟩ := t.date.exists_make h now.date.one_le_year now.date.year_le
  refine ⟨d, hd, ?_⟩
  have hread := (strptime_timestamp List.mem_cons_self t).trans
    (DateTime.make_of_date hmake₀ t.hour_lt t.minute_lt t.second_lt)
  rw [parse3164Ts, rfc3164TsFmts, List.findSome?_cons, hread, Option.bind_some,
    DateTime.replaceYear, hmonth, hday, hmake]
  rfl

/-- **An instant comes back** to the second if and only if it lies in the current year and not on a
29th of February, or is the current time on such a day. -/
theorem parse3164Ts_eq_iff (now t : DateTime) :
    parse3164Ts now (timestamp3164 t) = t.toSecond ↔
      if t.date.IsLeapDay then now = t.toSecond else t.date.year = now.date.year := by
  split_ifs with hleap
  · rw [parse3164Ts_leapDay now hleap]
  · obtain ⟨d, ⟨hyear, hmonth, hday⟩, hread⟩ := parse3164Ts_otherDay now hleap
    rw [hread, DateTime.ext_iff, ← hyear]
    constructor
    · rintro ⟨hdate, -⟩
      exact congrArg Date.year hdate.symm
    · intro hsame
      exact ⟨Date.ext hsame.symm hmonth hday, rfl, rfl, rfl, rfl⟩

/-- Two times are at most one day apart. -/
def WithinDay (now t : DateTime) : Prop :=
  now.micros ≤ t.micros + 86400000000 ∧ t.micros ≤ now.micros + 86400000000

/-- A message from the last second of a year. -/
def yearEnd : DateTime where
  date := ⟨2025, 12, 31, by decide, by decide, by decide, by decide, by decide, by decide⟩
  hour := 23
  minute := 59
  second := 59
  microsecond := 0
  hour_lt := by decide
  minute_lt := by decide
  second_lt := by decide
  microsecond_lt := Calendar.zero_microsecond_lt

/-- The start of the next year. -/
def newYear : DateTime where
  date := ⟨2026, 1, 1, by decide, by decide, by decide, by decide, by decide, by decide⟩
  hour := 0
  minute := 0
  second := 0
  microsecond := 0
  hour_lt := by decide
  minute_lt := by decide
  second_lt := by decide
  microsecond_lt := Calendar.zero_microsecond_lt

/-- **A message that is read a second later** is dated a year ahead. -/
theorem not_parse3164Ts_yearEnd :
    ¬∀ now t, WithinDay now t → parse3164Ts now (timestamp3164 t) = t.toSecond := by
  intro h
  have hread := h newYear yearEnd (by unfold WithinDay; decide)
  obtain ⟨d, ⟨hyear, -⟩, hmoved⟩ := parse3164Ts_otherDay newYear (t := yearEnd) (by decide)
  have hsame : d.year = 2025 := congrArg (fun t => t.date.year) (hmoved.symm.trans hread)
  exact absurd (hsame.symm.trans hyear) (by decide)

end Nodeglow.Syslog
