import Mathlib.Tactic.IntervalCases
import Mathlib.Tactic.Ring

/-!
# PythonOS.Libc.Time

Calendar time (`libc/time.c`): `gmtime_r` and its inverse `mktime`, for times from
the epoch on.

The two loops of `gmtime_r` disagree about leap years: the one over the years
knows the rule for centuries, the one over the months does not. So the date is
wrong after 28 February of a year like 2100. `mktime` makes the same mistake and
still gives back the time.
-/

namespace PythonOS.Libc

open List

/-- `struct tm` without `tm_isdst`, which is always 0. -/
structure Tm where
  sec : Nat
  min : Nat
  hour : Nat
  mday : Nat
  mon : Nat
  year : Nat
  wday : Nat
  yday : Nat
  deriving Repr, DecidableEq

/-- The length of a year, as both functions compute it. -/
def yearDays (y4 : Nat) : Nat :=
  365 + if y4 % 4 = 0 ∧ (y4 % 100 ≠ 0 ∨ y4 % 400 = 0) then 1 else 0

/-- `mdays`. -/
def mdays : List Nat := [31, 28, 31, 30, 31, 30, 31, 31, 30, 31, 30, 31]

/-- The length of a month, as both functions compute it: `md` is its entry of `mdays`. -/
def monthDays (y4 m md : Nat) : Nat := md + if m = 1 ∧ y4 % 4 = 0 then 1 else 0

/-- The loop of `gmtime_r` over the years: the days that are left, and `tm_year`. -/
def yearLoop (t year : Nat) : Nat × Nat :=
  if t < yearDays (year + 1900) then (t, year)
  else yearLoop (t - yearDays (year + 1900)) (year + 1)
termination_by t
decreasing_by
  unfold yearDays at *
  omega

/-- The loop of `gmtime_r` over the months: `tm_mon` and `tm_mday`. -/
def monthLoop (y4 : Nat) : (months : List Nat) → (m t : Nat) → Nat × Nat
  | [], _, _ => (0, 1)
  | md :: rest, m, t =>
    if t < monthDays y4 m md then (m, t + 1)
    else monthLoop y4 rest (m + 1) (t - monthDays y4 m md)

/-- `gmtime_r`. -/
def gmtimeR (t : Nat) : Tm :=
  let days := t / 60 / 60 / 24
  let (yday, year) := yearLoop days 70
  let (mon, mday) := monthLoop (year + 1900) mdays 0 yday
  { sec := t % 60, min := t / 60 % 60, hour := t / 60 / 60 % 24, mday, mon, year,
    wday := (days + 4) % 7, yday }

/-- `mktime`. -/
def mktime (tm : Tm) : Nat :=
  let year := tm.year + 1900
  let days := ((range' 1970 (year - 1970)).map yearDays).sum
  let days := days + ((mdays.zipIdx.take tm.mon).map fun p => monthDays year p.2 p.1).sum
  let days := days + (tm.mday - 1)
  days * 86400 + tm.hour * 3600 + tm.min * 60 + tm.sec

/-! ### The calendar -/

/-- The length of a month of the proleptic Gregorian calendar; January is 0. -/
def gregorianMonth (y m : Nat) : Nat :=
  if m = 1 then if y % 4 = 0 ∧ (y % 100 ≠ 0 ∨ y % 400 = 0) then 29 else 28 else mdays.getD m 0

/-- The number of a day, counted from 1 January of the year 1, which has number 1. -/
def dayNumber (y m d : Nat) : Nat :=
  365 * (y - 1) + (y - 1) / 4 - (y - 1) / 100 + (y - 1) / 400 +
    ((range m).map (gregorianMonth y)).sum + d

/-- The number of 1 January 1970. -/
def epochDay : Nat := 719163

/-- The date, weekday (from Sunday), day of the year and time of day of a time. -/
structure IsUtc (t : Nat) (tm : Tm) : Prop where
  time : tm.sec = t % 60 ∧ tm.min = t / 60 % 60 ∧ tm.hour = t / 3600 % 24
  month : tm.mon < 12
  day : 1 ≤ tm.mday ∧ tm.mday ≤ gregorianMonth (tm.year + 1900) tm.mon
  date : dayNumber (tm.year + 1900) tm.mon tm.mday = epochDay + t / 86400
  weekday : tm.wday = (epochDay + t / 86400) % 7
  yearday : dayNumber (tm.year + 1900) 0 1 + tm.yday = epochDay + t / 86400

/-- The time lies after 28 February of a year whose number is divisible by 100 and not by 400. -/
def AfterCenturyFebruary (t : Nat) : Prop :=
  ∃ y, y % 100 = 0 ∧ y % 400 ≠ 0 ∧ dayNumber y 1 28 < epochDay + t / 86400 ∧
    epochDay + t / 86400 < dayNumber (y + 1) 0 1

/-! ### Years -/

theorem dayNumber_succ {y : Nat} (hy : 1 ≤ y) :
    dayNumber (y + 1) 0 1 = dayNumber y 0 1 + yearDays y := by
  obtain ⟨k, rfl⟩ : ∃ k, y = k + 1 := ⟨y - 1, by omega⟩
  unfold dayNumber yearDays
  simp only [range_zero, map_nil, sum_nil, Nat.add_sub_cancel, Nat.succ_div,
    ← Nat.dvd_iff_mod_eq_zero, ne_eq]
  by_cases c4 : 4 ∣ k + 1 <;> by_cases c100 : 100 ∣ k + 1 <;> by_cases c400 : 400 ∣ k + 1 <;>
    simp only [c4, c100, c400, if_true, if_false, not_true, not_false_iff, or_true, or_false,
      and_true, and_false] <;> omega

/-- The loop over the years ends in the year of the day, and leaves the day of that year. -/
theorem yearLoop_spec (t year : Nat) :
    (yearLoop t year).1 < yearDays ((yearLoop t year).2 + 1900) ∧
      dayNumber ((yearLoop t year).2 + 1900) 0 1 + (yearLoop t year).1 =
        dayNumber (year + 1900) 0 1 + t ∧
      year ≤ (yearLoop t year).2 := by
  fun_induction yearLoop t year with
  | case1 t year h => exact ⟨h, rfl, Nat.le_refl _⟩
  | case2 t year h ih =>
    obtain ⟨hlt, hsum, hle⟩ := ih
    have hnext := dayNumber_succ (y := year + 1900) (by omega)
    rw [show year + 1900 + 1 = year + 1 + 1900 from by omega] at hnext
    exact ⟨hlt, by omega, by omega⟩

/-- The years before a year. -/
theorem sum_yearDays (n : Nat) :
    dayNumber 1970 0 1 + ((range' 1970 n).map yearDays).sum = dayNumber (1970 + n) 0 1 := by
  induction n with
  | zero => rfl
  | succ n ih =>
    have hnext := dayNumber_succ (y := 1970 + n) (by omega)
    rw [range'_1_concat, map_append, sum_append]
    simp only [map_cons, map_nil, sum_cons, sum_nil]
    rw [← Nat.add_assoc 1970 n 1]
    omega

theorem dayNumber_le {y y' : Nat} (hy : 1 ≤ y) (h : y ≤ y') :
    dayNumber y 0 1 ≤ dayNumber y' 0 1 := by
  induction h with
  | refl => exact Nat.le_refl _
  | step h ih => exact Nat.le_trans ih (dayNumber_succ (Nat.le_trans hy h) ▸ Nat.le_add_right _ _)

/-! ### Months -/

/-- The days before a month, as the loops count them. -/
def daysBefore (y4 mon : Nat) : Nat :=
  ((mdays.zipIdx.take mon).map fun p => monthDays y4 p.2 p.1).sum

/-- The loop over the months ends in the month of the day. -/
theorem monthLoop_spec (y4 : Nat) {months : List Nat} {m t : Nat}
    (ht : t < ((months.zipIdx m).map fun p => monthDays y4 p.2 p.1).sum) :
    ∃ k md, months[k]? = some md ∧ (monthLoop y4 months m t).1 = m + k ∧
      1 ≤ (monthLoop y4 months m t).2 ∧ (monthLoop y4 months m t).2 ≤ monthDays y4 (m + k) md ∧
      (((months.zipIdx m).take k).map fun p => monthDays y4 p.2 p.1).sum +
        (monthLoop y4 months m t).2 = t + 1 := by
  induction months generalizing m t with
  | nil => cases ht
  | cons md rest ih =>
    unfold monthLoop
    by_cases hlt : t < monthDays y4 m md
    · rw [if_pos hlt]
      exact ⟨0, md, rfl, rfl, Nat.le_add_left .., hlt, Nat.zero_add _⟩
    · rw [if_neg hlt]
      simp only [zipIdx_cons, map_cons, sum_cons] at ht
      obtain ⟨k, md', hk, hmon, hpos, hle, hsum⟩ := ih (m := m + 1)
        (t := t - monthDays y4 m md) (by omega)
      refine ⟨k + 1, md', hk, by omega, hpos, by rwa [← Nat.add_right_comm] at hle, ?_⟩
      simp only [zipIdx_cons, take_succ_cons, map_cons, sum_cons]
      omega

/-- The year is divisible by 100 and not by 400. -/
abbrev Century (y : Nat) : Prop := y % 100 = 0 ∧ y % 400 ≠ 0

/-- The loops give one month too many days: February in a year like 2100. -/
theorem monthDays_eq {y m md : Nat} (hm : mdays[m]? = some md) :
    monthDays y m md = gregorianMonth y m + if Century y ∧ m = 1 then 1 else 0 := by
  have hmd : mdays.getD m 0 = md := by rw [getD_eq_getElem?_getD, hm, Option.getD_some]
  unfold monthDays gregorianMonth Century
  rw [hmd]
  by_cases h1 : m = 1
  · subst h1
    cases hm
    split_ifs <;> omega
  · simp [h1]

theorem daysBefore_eq (y : Nat) {m : Nat} (hm : m ≤ 12) :
    daysBefore y m = ((range m).map (gregorianMonth y)).sum +
      if Century y ∧ 2 ≤ m then 1 else 0 := by
  induction m with
  | zero => simp [daysBefore]
  | succ m ih =>
    obtain ⟨md, hmd⟩ : ∃ md, mdays[m]? = some md :=
      ⟨_, getElem?_eq_getElem (show m < mdays.length from hm)⟩
    have hnext : daysBefore y (m + 1) = daysBefore y m + monthDays y m md := by
      simp [daysBefore, take_add_one, hmd]
    rw [hnext, ih (by omega), monthDays_eq hmd, range_succ, map_append, sum_append,
      map_singleton, sum_singleton]
    split_ifs <;> omega

/-- All months together are at least a year. -/
theorem yearDays_le (y : Nat) :
    yearDays y ≤ ((mdays.zipIdx 0).map fun p => monthDays y p.2 p.1).sum := by
  have hsum : ((mdays.zipIdx 0).map fun p => monthDays y p.2 p.1).sum =
      365 + if y % 4 = 0 then 1 else 0 := by
    by_cases h : y % 4 = 0 <;> simp [mdays, monthDays, h]
  rw [hsum]
  unfold yearDays
  split_ifs <;> omega

/-! ### The two functions -/

/-- What `gmtime_r` computes: the year of the day, and a month and day of the month that together
are the day of the year, as the loops count. -/
theorem gmtimeR_eq (t : Nat) :
    ∃ year yday mon mday md, gmtimeR t =
        { sec := t % 60, min := t / 60 % 60, hour := t / 60 / 60 % 24, mday, mon, year,
          wday := (t / 86400 + 4) % 7, yday } ∧
      70 ≤ year ∧ yday < yearDays (year + 1900) ∧
      dayNumber (year + 1900) 0 1 + yday = epochDay + t / 86400 ∧
      mdays[mon]? = some md ∧ 1 ≤ mday ∧ mday ≤ monthDays (year + 1900) mon md ∧
      daysBefore (year + 1900) mon + mday = yday + 1 := by
  have hdays : t / 60 / 60 / 24 = t / 86400 := by omega
  have hepoch : dayNumber (70 + 1900) 0 1 = epochDay := by decide
  obtain ⟨hlt, hsum, hle⟩ := yearLoop_spec (t / 86400) 70
  obtain ⟨k, md, hk, hmon, hpos, hmd, hday⟩ := monthLoop_spec _ (m := 0)
    (Nat.lt_of_lt_of_le hlt (yearDays_le _))
  rw [Nat.zero_add] at hmon hmd
  refine ⟨(yearLoop (t / 86400) 70).2, (yearLoop (t / 86400) 70).1, k, _, md, ?_, hle, hlt,
    hepoch ▸ hsum, hk, hpos, hmd, hday⟩
  unfold gmtimeR
  rw [hdays, ← hmon]

theorem dayNumber_february (y : Nat) : dayNumber y 1 28 = dayNumber y 0 1 + 58 := by
  simp [dayNumber, gregorianMonth, mdays]

/-- The year of a time is the only one in which it can be after February. -/
theorem afterCenturyFebruary_iff {t year yday : Nat} (hlt : yday < yearDays (year + 1900))
    (hsum : dayNumber (year + 1900) 0 1 + yday = epochDay + t / 86400) :
    AfterCenturyFebruary t ↔ Century (year + 1900) ∧ 59 ≤ yday := by
  have hnext := dayNumber_succ (y := year + 1900) (by omega)
  constructor
  · rintro ⟨y, h100, h400, hgt, hbefore⟩
    rw [dayNumber_february] at hgt
    obtain rfl : y = year + 1900 := by
      rcases Nat.lt_trichotomy y (year + 1900) with hc | hc | hc
      · have := dayNumber_le (y := y + 1) (by omega) hc
        omega
      · exact hc
      · have := dayNumber_le (y := year + 1900 + 1) (by omega) hc
        omega
    exact ⟨⟨h100, h400⟩, by omega⟩
  · rintro ⟨hc, hy⟩
    refine ⟨year + 1900, hc.1, hc.2, ?_, by omega⟩
    rw [dayNumber_february]
    omega

/-- In a year like 2100 the loops count wrong from the 60th day on. -/
theorem daysBefore_century {y mon mday yday : Nat} (hmon : mon < 12)
    (hday : daysBefore y mon + mday = yday + 1)
    (hle : mday ≤ gregorianMonth y mon + if Century y ∧ mon = 1 then 1 else 0) :
    (mday ≤ gregorianMonth y mon ∧ daysBefore y mon = ((range mon).map (gregorianMonth y)).sum) ↔
      ¬ (Century y ∧ 59 ≤ yday) := by
  have hbefore := daysBefore_eq y (Nat.le_of_lt hmon)
  by_cases hc : Century y
  · rw [if_congr (and_iff_right hc) rfl rfl] at hbefore hle
    have hfeb : gregorianMonth y 1 = 28 := by
      unfold gregorianMonth
      rw [if_pos rfl, if_neg (by omega)]
    rcases (by omega : mon = 0 ∨ mon = 1 ∨ 2 ≤ mon) with rfl | rfl | h2
    · have hjan : gregorianMonth y 0 = 31 ∧ ((range 0).map (gregorianMonth y)).sum = 0 :=
        ⟨rfl, rfl⟩
      rw [if_neg (by decide)] at hbefore hle
      omega
    · have hjan : ((range 1).map (gregorianMonth y)).sum = 31 := rfl
      rw [if_neg (by decide)] at hbefore
      omega
    · have h4 : y % 4 = 0 := by omega
      have hmar : 60 ≤ daysBefore y mon := by
        interval_cases mon <;> simp [daysBefore, mdays, monthDays, h4]
      rw [if_pos h2] at hbefore
      omega
  · rw [if_neg fun h => hc h.1] at hbefore hle
    exact ⟨fun _ h => hc h.1, fun _ => ⟨hle, hbefore⟩⟩

theorem mktime_gmtimeR (t : Nat) : mktime (gmtimeR t) = t := by
  obtain ⟨year, yday, mon, mday, md, heq, hyear, -, hsum, -, hpos, -, hday⟩ := gmtimeR_eq t
  have hyears := sum_yearDays (year + 1900 - 1970)
  rw [show 1970 + (year + 1900 - 1970) = year + 1900 from by omega] at hyears
  have hepoch : dayNumber 1970 0 1 = epochDay := by decide
  unfold daysBefore at hday
  rw [heq]
  simp only [mktime]
  omega

theorem isUtc_iff (t : Nat) : IsUtc t (gmtimeR t) ↔ ¬ AfterCenturyFebruary t := by
  obtain ⟨year, yday, mon, mday, md, heq, -, hlt, hsum, hmd, hpos, hle, hday⟩ := gmtimeR_eq t
  have hmon : mon < 12 := (List.getElem?_eq_some_iff.mp hmd).1
  rw [monthDays_eq hmd] at hle
  rw [heq, afterCenturyFebruary_iff hlt hsum, ← daysBefore_century hmon hday hle]
  have hdate : dayNumber (year + 1900) mon mday + 1 = dayNumber (year + 1900) 0 1 +
      ((range mon).map (gregorianMonth (year + 1900))).sum + mday := by
    simp only [dayNumber, range_zero, map_nil, sum_nil]
    omega
  constructor
  · intro h
    have hdate' : dayNumber (year + 1900) mon mday = epochDay + t / 86400 := h.date
    exact ⟨h.day.2, by omega⟩
  · rintro ⟨hmday, hbefore⟩
    refine ⟨⟨rfl, rfl, ?_⟩, hmon, ⟨hpos, hmday⟩, ?_, ?_, hsum⟩
    · rw [Nat.div_div_eq_div_mul]
    · show dayNumber (year + 1900) mon mday = epochDay + t / 86400
      omega
    · show (t / 86400 + 4) % 7 = (719163 + t / 86400) % 7
      omega

/-- **Times and dates.** `mktime` takes the result of `gmtime_r` back to the time it came from, and
that result is the date, weekday, day of the year and time of day of the time exactly when the
time is not after 28 February of a year like 2100. -/
theorem gmtimeR_correct_iff (t : Nat) :
    mktime (gmtimeR t) = t ∧ (IsUtc t (gmtimeR t) ↔ ¬ AfterCenturyFebruary t) :=
  ⟨mktime_gmtimeR t, isUtc_iff t⟩

/-- The first second of 1 March 2100 is said to be on 29 February. -/
theorem gmtimeR_march_2100 :
    (gmtimeR 4107542400).mon = 1 ∧ (gmtimeR 4107542400).mday = 29 ∧
      ¬ IsUtc 4107542400 (gmtimeR 4107542400) := by
  refine ⟨by decide +kernel, by decide +kernel, ?_⟩
  rw [isUtc_iff, not_not]
  exact ⟨2100, by decide, by decide, by decide, by decide⟩

end PythonOS.Libc
