import Mathlib.Data.Nat.Find

set_option relaxedAutoImplicit false
set_option autoImplicit false

/-!
# Calendars

Broken-down local time, as the `localtime` and `mktime` of a C library give it, for time zones
whose local hours are hours of the epoch: every one lasts from `3600 * k` to `3600 * (k + 1)`
seconds for some `k`. The offset of such a zone is always a whole number of hours, and it changes
between two hours. A zone may leave out local hours or repeat them, as at the two ends of daylight
saving time.

`mktime` is only asked for a moment with the broken-down time that it is given. Where two hours have
the same broken-down time, the daylight saving flag included, it may take either.

## Main definitions

* `Calendar` — a time zone.
* `Calendar.localHour` — the local hour of a moment, as a clock on the wall shows it.
* `Calendar.hourEnd` — the hour of the epoch that follows the local hour of a moment, for `mktime`.
* `Calendar.Regular` — a zone that repeats no hour.
* `Calendar.utc`, `Calendar.endOfDst` — the Gregorian calendar from 1970 on, and a zone in which
  daylight saving time ends.

## Main results

* `Calendar.hourEnd_eq` — where `mktime` undoes `localtime`, the next hour of the epoch follows.
* `Calendar.regular_utc` — no hour is repeated in universal time.
-/

/-- `struct tm`, with the members that `mktime` reads: `year` counts from 1900 and `mon` from 0, and
`isdst` is positive while daylight saving time is in effect. -/
structure Tm where
  year : ℕ
  mon : ℕ
  mday : ℕ
  hour : ℕ
  min : ℕ
  sec : ℕ
  isdst : ℤ
  deriving DecidableEq

namespace Tm

/-- The start of the hour. -/
def startOfHour (tm : Tm) : Tm := { tm with min := 0, sec := 0 }

/-- The date and the hour, which do not tell the daylight saving time. -/
def dateHour (tm : Tm) : ℕ × ℕ × ℕ × ℕ := (tm.year, tm.mon, tm.mday, tm.hour)

/-- The start of an hour has its date and hour. -/
@[simp] lemma dateHour_startOfHour (tm : Tm) : tm.startOfHour.dateHour = tm.dateHour := rfl

end Tm

/-- The local time of a zone, in seconds since the epoch: the local hours are hours of the epoch,
and `mktime` finds a moment for the start of every hour that `localtime` gives. -/
structure Calendar where
  localtime : ℕ → Tm
  mktime : Tm → ℕ
  startOfHour_congr : ∀ s t, s / 3600 = t / 3600 →
    (localtime s).startOfHour = (localtime t).startOfHour
  min_sec : ∀ s, (localtime s).min * 60 + (localtime s).sec = s % 3600
  localtime_mktime : ∀ s, localtime (mktime (localtime s).startOfHour) = (localtime s).startOfHour

namespace Calendar

section Zone

variable (cal : Calendar)

/-- The local hour of a moment. -/
def localHour (s : ℕ) : ℕ × ℕ × ℕ × ℕ := (cal.localtime s).dateHour

/-- What `mktime` finds for the start of the local hour of a moment. -/
def hourStart (s : ℕ) : ℕ := cal.mktime (cal.localtime s).startOfHour

/-- The hour of the epoch that follows the local hour of a moment: the one after the hour that
`mktime` finds, or this hour itself if it is a later one with the same broken-down time. -/
def hourEnd (s : ℕ) : ℕ :=
  if s < cal.hourStart s then cal.hourStart s / 3600 else cal.hourStart s / 3600 + 1

/-- In an hour of the epoch the local hour does not change. -/
lemma localHour_congr {s t : ℕ} (h : s / 3600 = t / 3600) : cal.localHour s = cal.localHour t := by
  rw [localHour, localHour, ← Tm.dateHour_startOfHour, cal.startOfHour_congr s t h,
    Tm.dateHour_startOfHour]

/-- `mktime` finds the start of an hour of the epoch. -/
lemma hourStart_mod (s : ℕ) : cal.hourStart s % 3600 = 0 := by
  have h := cal.min_sec (cal.hourStart s)
  rw [hourStart, cal.localtime_mktime s] at h
  exact h.symm

/-- The local hour of the moment that `mktime` finds is the one it is asked for. -/
lemma localHour_hourStart (s : ℕ) : cal.localHour (cal.hourStart s) = cal.localHour s := by
  rw [localHour, hourStart, cal.localtime_mktime, Tm.dateHour_startOfHour]
  rfl

variable {cal}

/-- Where `mktime` undoes `localtime`, the next hour of the epoch follows. -/
lemma hourEnd_eq {s : ℕ} (h : cal.hourStart s = s / 3600 * 3600) :
    cal.hourEnd s = s / 3600 + 1 := by
  have hle := Nat.div_mul_le_self s 3600
  rw [hourEnd, h, if_neg (not_lt.mpr hle), Nat.mul_div_cancel _ (by decide)]

/-- A zone that repeats no hour. -/
def Regular (cal : Calendar) : Prop :=
  ∀ s t, cal.localHour s = cal.localHour t → s / 3600 = t / 3600

namespace Regular

/-- Every hour of the epoch has a local hour of its own. -/
lemma localHour_eq_iff (h : cal.Regular) {s t : ℕ} :
    cal.localHour s = cal.localHour t ↔ s / 3600 = t / 3600 :=
  ⟨h s t, cal.localHour_congr⟩

/-- There is nothing to choose for `mktime`. -/
lemma hourEnd_eq (h : cal.Regular) (s : ℕ) : cal.hourEnd s = s / 3600 + 1 := by
  refine Calendar.hourEnd_eq ?_
  have hhour := h _ _ (cal.localHour_hourStart s)
  have hmod := cal.hourStart_mod s
  omega

end Regular

end Zone

/-! ## The Gregorian calendar -/

/-- The days before the year `1970 + y`. -/
def yearStart (y : ℕ) : ℕ := 365 * y + ((y + 1) / 4 + (y + 369) / 400 - (y + 69) / 100)

/-- The year `1970 + y` is a leap year. -/
def isLeap (y : ℕ) : Bool :=
  (y + 1970) % 4 = 0 && ((y + 1970) % 100 ≠ 0 || (y + 1970) % 400 = 0)

/-- The days before a month in its year. -/
def monthStart (leap : Bool) (mon : ℕ) : ℕ :=
  [0, 31, 59, 90, 120, 151, 181, 212, 243, 273, 304, 334].getD mon 365 +
    if leap && 2 ≤ mon then 1 else 0

/-- The year of a day, counted from 1970. -/
def yearOf (day : ℕ) : ℕ := Nat.findGreatest (fun y => yearStart y ≤ day) (day / 365)

/-- The month of a day of the year, counted from 0. -/
def monthOf (leap : Bool) (day : ℕ) : ℕ := Nat.findGreatest (fun m => monthStart leap m ≤ day) 11

/-- The year of a day does not start after it. -/
lemma yearStart_yearOf (day : ℕ) : yearStart (yearOf day) ≤ day :=
  Nat.findGreatest_spec (P := fun y => yearStart y ≤ day) (Nat.zero_le _) (Nat.zero_le _)

/-- The month of a day does not start after it. -/
lemma monthStart_monthOf (leap : Bool) (day : ℕ) : monthStart leap (monthOf leap day) ≤ day :=
  Nat.findGreatest_spec (P := fun m => monthStart leap m ≤ day) (Nat.zero_le _)
    (by simp [monthStart])

/-- The date and the time of day in universal time. -/
def gmtime (isdst : ℤ) (s : ℕ) : Tm :=
  let year := yearOf (s / 86400)
  let day := s / 86400 - yearStart year
  let mon := monthOf (isLeap year) day
  ⟨year + 70, mon, day - monthStart (isLeap year) mon + 1, s / 3600 % 24, s / 60 % 60, s % 60,
    isdst⟩

/-- The seconds of a broken-down universal time. -/
def timegm (tm : Tm) : ℕ :=
  (yearStart (tm.year - 70) + monthStart (isLeap (tm.year - 70)) tm.mon + (tm.mday - 1)) * 86400 +
    tm.hour * 3600 + tm.min * 60 + tm.sec

/-- An hour has one date. -/
lemma startOfHour_gmtime (isdst : ℤ) (s : ℕ) :
    (gmtime isdst s).startOfHour = gmtime isdst (s / 3600 * 3600) := by
  have hday : s / 3600 * 3600 / 86400 = s / 86400 := by omega
  have hhour : s / 3600 * 3600 / 3600 = s / 3600 := by omega
  have hmin : s / 3600 * 3600 / 60 % 60 = 0 := by omega
  have hsec : s / 3600 * 3600 % 60 = 0 := by omega
  simp only [gmtime, Tm.startOfHour, hday, hhour, hmin, hsec]

/-- The minutes and seconds are those that have passed of the hour. -/
lemma min_sec_gmtime (isdst : ℤ) (s : ℕ) :
    (gmtime isdst s).min * 60 + (gmtime isdst s).sec = s % 3600 := by
  simp only [gmtime]
  omega

/-- `timegm` undoes `gmtime`. -/
lemma timegm_gmtime (isdst : ℤ) (s : ℕ) : timegm (gmtime isdst s) = s := by
  have hyear := yearStart_yearOf (s / 86400)
  have hmon := monthStart_monthOf (isLeap (yearOf (s / 86400)))
    (s / 86400 - yearStart (yearOf (s / 86400)))
  simp only [timegm, gmtime, Nat.add_sub_cancel]
  omega

/-- Coordinated universal time. -/
def utc : Calendar where
  localtime := gmtime 0
  mktime := timegm
  startOfHour_congr s t h := by rw [startOfHour_gmtime, startOfHour_gmtime, h]
  min_sec := min_sec_gmtime 0
  localtime_mktime s := by rw [startOfHour_gmtime, timegm_gmtime]

/-- No hour is repeated in universal time. -/
lemma regular_utc : utc.Regular := by
  intro s t h
  obtain ⟨hyear, hmon, hmday, hhour⟩ : (gmtime 0 s).year = (gmtime 0 t).year ∧
      (gmtime 0 s).mon = (gmtime 0 t).mon ∧ (gmtime 0 s).mday = (gmtime 0 t).mday ∧
      (gmtime 0 s).hour = (gmtime 0 t).hour := by
    simpa only [localHour, Tm.dateHour, utc, Prod.mk.injEq] using h
  have hisdst : (gmtime 0 s).isdst = (gmtime 0 t).isdst := rfl
  have hstart : timegm (gmtime 0 s).startOfHour = timegm (gmtime 0 t).startOfHour := by
    simp only [Tm.startOfHour, hyear, hmon, hmday, hhour, hisdst]
  rw [startOfHour_gmtime, startOfHour_gmtime, timegm_gmtime, timegm_gmtime] at hstart
  omega

/-- The leap day of 2016 ends the 60th day of its year. -/
example : utc.localtime 1456790399 = ⟨116, 1, 29, 23, 59, 59, 0⟩ := by decide +kernel

/-- A zone two hours ahead of universal time until the hour `switch` of the epoch, when its daylight
saving time ends, and one hour ahead from then on. -/
def endOfDst (switch : ℕ) : Calendar where
  localtime s := if s / 3600 < switch then gmtime 1 (s + 7200) else gmtime 0 (s + 3600)
  mktime tm := timegm tm - if tm.isdst = 1 then 7200 else 3600
  startOfHour_congr s t h := by
    have h1 : (s + 7200) / 3600 = (t + 7200) / 3600 := by omega
    have h2 : (s + 3600) / 3600 = (t + 3600) / 3600 := by omega
    simp only [h]
    split
    · rw [startOfHour_gmtime, startOfHour_gmtime, h1]
    · rw [startOfHour_gmtime, startOfHour_gmtime, h2]
  min_sec s := by
    split
    · rw [min_sec_gmtime]
      omega
    · rw [min_sec_gmtime]
      omega
  localtime_mktime s := by
    -- the flag tells the two hours of the same name apart
    by_cases h : s / 3600 < switch
    · have hdst : (gmtime 1 ((s + 7200) / 3600 * 3600)).isdst = 1 := rfl
      have hstart : (s + 7200) / 3600 * 3600 - 7200 = s / 3600 * 3600 := by omega
      have hhour : s / 3600 * 3600 / 3600 < switch := by omega
      have hend : s / 3600 * 3600 + 7200 = (s + 7200) / 3600 * 3600 := by omega
      simp only [h, if_true, startOfHour_gmtime, timegm_gmtime, hdst, hstart, hhour, hend]
    · have hdst : (gmtime 0 ((s + 3600) / 3600 * 3600)).isdst ≠ 1 := by simp [gmtime]
      have hstart : (s + 3600) / 3600 * 3600 - 3600 = s / 3600 * 3600 := by omega
      have hhour : ¬ s / 3600 * 3600 / 3600 < switch := by omega
      have hend : s / 3600 * 3600 + 3600 = (s + 3600) / 3600 * 3600 := by omega
      simp only [h, if_false, startOfHour_gmtime, timegm_gmtime, hdst, hstart, hhour, hend]

/-- Two o'clock on 2018-10-28, once before the end of daylight saving time and once after it. -/
example : (endOfDst 427969).localtime 1540688399 = ⟨118, 9, 28, 2, 59, 59, 1⟩ ∧
    (endOfDst 427969).localtime 1540688400 = ⟨118, 9, 28, 2, 0, 0, 0⟩ := by decide +kernel

end Calendar
