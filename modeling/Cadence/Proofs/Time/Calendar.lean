import Cadence.Time.Date
import Mathlib.Tactic.IntervalCases

/-!
# The days follow the calendar

The date of the next day is the next date of the calendar. With the date of day 0 this fixes the
date of every day.
-/

namespace Cadence.Date

def next (d : Date) : Date :=
  if d.day < daysInMonth d.year d.month then { d with day := d.day + 1 }
  else if d.month < 12 then ⟨d.year, d.month + 1, 1⟩
  else ⟨d.year + 1, 1, 1⟩

/-! ## Years and months from March

A year from March is split into twelve months, the lengths of which do not depend on the year; only
the last month ends where the year does. -/

/-- The days before a year, from March of the year 0 on. -/
def marchStart (y : Int) : Int := 365 * y + y / 4 - y / 100 + y / 400

/-- The days of a year before a month, which is counted from 0 for March. -/
def monthStart (m : Int) : Int := (153 * m + 2) / 5

/-- The date of the day `e` of a month, counted from 0. -/
def ofMonth (y m e : Int) : Date :=
  ⟨if m < 10 then y else y + 1, (if m < 10 then m + 3 else m - 9).toNat, (e + 1).toNat⟩

theorem ofMonth_succ {y m e : Int} (hm : 0 ≤ m) (hm' : m < 11) :
    ofMonth y (m + 1) 0 =
      if (ofMonth y m e).month < 12 then ⟨(ofMonth y m e).year, (ofMonth y m e).month + 1, 1⟩
      else ⟨(ofMonth y m e).year + 1, 1, 1⟩ := by
  interval_cases m <;> rfl

theorem marchStart_succ (y : Int) :
    marchStart (y + 1) = marchStart y + (if isLeapYear (y + 1) then 366 else 365) := by
  unfold marchStart
  split
  · rename_i h
    simp only [isLeapYear, Bool.and_eq_true, Bool.or_eq_true, decide_eq_true_eq] at h
    omega
  · rename_i h
    simp only [isLeapYear, Bool.and_eq_true, Bool.or_eq_true, decide_eq_true_eq] at h
    omega

theorem length_of_year (y : Int) :
    marchStart y + 365 ≤ marchStart (y + 1) ∧ marchStart (y + 1) ≤ marchStart y + 366 := by
  rw [marchStart_succ]
  split <;> omega

theorem daysInMonth_le (y : Int) (month : Nat) : daysInMonth y month ≤ 31 := by
  unfold daysInMonth
  repeat' split
  all_goals decide

theorem daysInMonth_march {y m : Int} (hm : 0 ≤ m) (hm' : m ≤ 11) :
    (daysInMonth (if m < 10 then y else y + 1) (if m < 10 then m + 3 else m - 9).toNat : Int) =
      min (monthStart (m + 1)) (marchStart (y + 1) - marchStart y) - monthStart m := by
  rw [marchStart_succ]
  interval_cases m
  case «11» => cases h : isLeapYear (y + 1) <;> simp [daysInMonth, monthStart, h]
  all_goals cases isLeapYear (y + 1) <;> simp [daysInMonth, monthStart]

/-! ## From days to dates -/

theorem yearOfEra_eq {c q r doy : Int} (hc : 0 ≤ c ∧ c ≤ 3) (hq : 0 ≤ q ∧ q ≤ 24)
    (hr : 0 ≤ r ∧ r ≤ 3) (hdoy : 0 ≤ doy ∧ doy ≤ 365)
    (hleap : doy = 365 → r = 3 ∧ (q < 24 ∨ c = 3)) :
    let doe := 36524 * c + 1461 * q + 365 * r + doy
    (doe - doe / 1460 + doe / 36524 - doe / 146096) / 365 = 100 * c + 4 * q + r := by
  intro doe
  by_cases hlast : doe = 146096
  · -- the leap day at the end of the era
    have hyear : 100 * c + 4 * q + r = 399 := by omega
    rw [hlast, hyear]
    decide
  · have hcentury : doe / 36524 = c := by omega
    have hera : doe / 146096 = 0 := by omega
    have hfour : doe / 1460 = 25 * c + q + (24 * c + q + 365 * r + doy) / 1460 := by omega
    rw [hcentury, hera, hfour]
    omega

theorem isLeapYear_march {era c q r : Int} (hq : 0 ≤ q ∧ q ≤ 24) (hr : 0 ≤ r ∧ r ≤ 3)
    (hc : 0 ≤ c ∧ c ≤ 3) (h : isLeapYear (400 * era + 100 * c + 4 * q + r + 1) = true) :
    r = 3 ∧ (q < 24 ∨ c = 3) := by
  simp only [isLeapYear, Bool.and_eq_true, Bool.or_eq_true, decide_eq_true_eq] at h
  have hthree : r = 3 := by omega
  subst hthree
  exact ⟨rfl, by omega⟩

theorem yearOfEra_of_marchStart {n y doy : Int} (h0 : 0 ≤ doy) (hn : n = marchStart y + doy)
    (hlt : n < marchStart (y + 1)) :
    let doe := n % 146097
    let yoe := (doe - doe / 1460 + doe / 36524 - doe / 146096) / 365
    yoe + n / 146097 * 400 = y ∧ doe - (365 * yoe + yoe / 4 - yoe / 100) = doy := by
  obtain ⟨era, c, q, r, hy, hc, hq, hr⟩ : ∃ era c q r : Int, y = 400 * era + 100 * c + 4 * q + r ∧
      (0 ≤ c ∧ c ≤ 3) ∧ (0 ≤ q ∧ q ≤ 24) ∧ (0 ≤ r ∧ r ≤ 3) :=
    ⟨y / 400, y % 400 / 100, y % 100 / 4, y % 4, by omega, by omega, by omega, by omega⟩
  have hstart : marchStart y = 146097 * era + (36524 * c + 1461 * q + 365 * r) := by
    unfold marchStart
    omega
  have hlength : doy ≤ 365 ∧ (doy = 365 → r = 3 ∧ (q < 24 ∨ c = 3)) := by
    rw [marchStart_succ, hstart] at hlt
    by_cases hleap : isLeapYear (y + 1) = true
    · rw [if_pos hleap] at hlt
      exact ⟨by omega, fun _ => isLeapYear_march hq hr hc (hy ▸ hleap)⟩
    · rw [if_neg hleap] at hlt
      omega
  have hin : 36524 * c + 1461 * q + 365 * r + doy ≤ 146096 := by omega
  have hera : n / 146097 = era := by omega
  intro doe yoe
  have hdoe : doe = 36524 * c + 1461 * q + 365 * r + doy := by
    unfold doe
    omega
  have hyoe : yoe = 100 * c + 4 * q + r := by
    unfold yoe
    rw [hdoe]
    exact yearOfEra_eq hc hq hr ⟨h0, hlength.1⟩ hlength.2
  clear_value yoe doe
  have hfour : yoe / 4 = 25 * c + q := by omega
  have hcentury : yoe / 100 = c := by omega
  exact ⟨by omega, by omega⟩

/-- The day number `n` is the day `e` of the month `m` of the year `y`, all counted from March. -/
structure IsDay (n y m e : Int) : Prop where
  month_mem : 0 ≤ m ∧ m ≤ 11
  day_nonneg : 0 ≤ e
  eq : n + 719468 = marchStart y + (monthStart m + e)
  in_month : monthStart m + e < monthStart (m + 1)
  in_year : n + 719468 < marchStart (y + 1)

theorem IsDay.ofDayNumber_eq {n y m e : Int} (h : IsDay n y m e) :
    ofDayNumber n = ofMonth y m e := by
  obtain ⟨hm, he, hn, hmonth, hyear⟩ := h
  have hstart : 0 ≤ monthStart m := by
    unfold monthStart
    omega
  obtain ⟨hy, hdoy⟩ := yearOfEra_of_marchStart (by omega) hn hyear
  have hmp : (5 * (monthStart m + e) + 2) / 153 = m := by
    unfold monthStart at hmonth ⊢
    omega
  have hday : monthStart m + e - (153 * m + 2) / 5 = e := by
    unfold monthStart
    omega
  unfold ofDayNumber ofMonth
  simp only [hdoy, hmp, hday, hy, mk.injEq, and_true]
  split <;> split <;> omega

theorem exists_year (n : Int) :
    ∃ y doy, 0 ≤ doy ∧ n = marchStart y + doy ∧ n < marchStart (y + 1) := by
  induction n using Int.induction_on with
  | zero => exact ⟨0, 0, by decide, by decide, by decide⟩
  | succ n ih =>
    obtain ⟨y, doy, h0, hn, hlt⟩ := ih
    by_cases hnext : (n : Int) + 1 < marchStart (y + 1)
    · exact ⟨y, doy + 1, by omega, by omega, hnext⟩
    · have := length_of_year (y + 1)
      exact ⟨y + 1, 0, by omega, by omega, by omega⟩
  | pred n ih =>
    obtain ⟨y, doy, h0, hn, hlt⟩ := ih
    by_cases hfirst : 0 < doy
    · exact ⟨y, doy - 1, by omega, by omega, by omega⟩
    · have := length_of_year (y - 1)
      rw [Int.sub_add_cancel] at this
      refine ⟨y - 1, -n - 1 - marchStart (y - 1), by omega, by omega, ?_⟩
      rw [Int.sub_add_cancel]
      omega

theorem exists_isDay (n : Int) : ∃ y m e, IsDay n y m e := by
  obtain ⟨y, doy, h0, hn, hlt⟩ := exists_year (n + 719468)
  have := length_of_year y
  refine ⟨y, (5 * doy + 2) / 153, doy - monthStart ((5 * doy + 2) / 153), ?_⟩
  unfold monthStart
  constructor
  case eq => unfold monthStart; omega
  case in_month => unfold monthStart; omega
  case in_year => exact hlt
  all_goals omega

theorem IsDay.daysInMonth_eq {n y m e : Int} (h : IsDay n y m e) :
    (daysInMonth (ofDayNumber n).year (ofDayNumber n).month : Int) =
      min (monthStart (m + 1)) (marchStart (y + 1) - marchStart y) - monthStart m := by
  rw [h.ofDayNumber_eq]
  exact daysInMonth_march h.month_mem.1 h.month_mem.2

theorem IsDay.day_eq {n y m e : Int} (h : IsDay n y m e) : ((ofDayNumber n).day : Int) = e + 1 := by
  have he := h.day_nonneg
  rw [h.ofDayNumber_eq]
  exact Int.toNat_of_nonneg (by omega)

theorem IsDay.day_le {n y m e : Int} (h : IsDay n y m e) :
    (ofDayNumber n).day ≤ daysInMonth (ofDayNumber n).year (ofDayNumber n).month := by
  have hlast := h.daysInMonth_eq
  have hday := h.day_eq
  obtain ⟨-, -, hn, hmonth, hyear⟩ := h
  omega

theorem IsDay.lt_daysInMonth_iff {n y m e : Int} (h : IsDay n y m e) :
    (ofDayNumber n).day < daysInMonth (ofDayNumber n).year (ofDayNumber n).month ↔
      monthStart m + (e + 1) < monthStart (m + 1) ∧ n + 1 + 719468 < marchStart (y + 1) := by
  have hlast := h.daysInMonth_eq
  have hday := h.day_eq
  obtain ⟨-, -, hn, -, -⟩ := h
  omega

/-! ## Results -/

theorem ofDayNumber_succ (n : Int) : ofDayNumber (n + 1) = (ofDayNumber n).next := by
  obtain ⟨y, m, e, h⟩ := exists_isDay n
  have hin := h.lt_daysInMonth_iff
  obtain ⟨hm, he, hn, hmonth, hyear⟩ := id h
  unfold next
  by_cases hday : (ofDayNumber n).day < daysInMonth (ofDayNumber n).year (ofDayNumber n).month
  · rw [if_pos hday]
    obtain ⟨hmonth', hyear'⟩ := hin.mp hday
    have hnext : IsDay (n + 1) y m (e + 1) := ⟨hm, by omega, by omega, hmonth', hyear'⟩
    rw [hnext.ofDayNumber_eq, h.ofDayNumber_eq]
    unfold ofMonth
    simp only [mk.injEq, true_and]
    omega
  · rw [if_neg hday]
    by_cases hlast : n + 1 + 719468 < marchStart (y + 1)
    · -- the first day of the next month
      have hend : monthStart (m + 1) = monthStart m + (e + 1) := by
        have := fun hlt => hday (hin.mpr ⟨hlt, hlast⟩)
        omega
      have hm' : m < 11 := by
        have := length_of_year y
        unfold monthStart at hend hn
        omega
      have hnext : IsDay (n + 1) y (m + 1) 0 := by
        refine ⟨⟨by omega, hm'⟩, by omega, by omega, ?_, hlast⟩
        unfold monthStart
        omega
      rw [hnext.ofDayNumber_eq, h.ofDayNumber_eq]
      exact ofMonth_succ hm.1 hm'
    · -- the first of March
      have hm' : m = 11 := by
        have := length_of_year y
        unfold monthStart at hn hmonth
        omega
      subst hm'
      have hnext : IsDay (n + 1) (y + 1) 0 0 := by
        have := length_of_year (y + 1)
        exact ⟨by omega, by omega, by unfold monthStart; omega, by decide, by omega⟩
      rw [hnext.ofDayNumber_eq, h.ofDayNumber_eq]
      rfl

theorem isValid_ofDayNumber (n : Int) : isValid (ofDayNumber n) = true := by
  obtain ⟨y, m, e, h⟩ := exists_isDay n
  have hday := h.day_le
  obtain ⟨hm, he, -⟩ := id h
  unfold isValid
  simp only [Bool.and_eq_true, decide_eq_true_eq]
  refine ⟨⟨⟨?_, ?_⟩, ?_⟩, hday⟩
  all_goals
    rw [h.ofDayNumber_eq]
    unfold ofMonth
    simp only
    omega

theorem year_mono {m n : Int} (h : m ≤ n) : (ofDayNumber m).year ≤ (ofDayNumber n).year := by
  induction n, h using Int.leInduction with
  | base => exact Int.le_refl _
  | succ n hn ih =>
    rw [ofDayNumber_succ]
    refine Int.le_trans ih ?_
    unfold next
    split
    · exact Int.le_refl _
    · split
      · exact Int.le_refl _
      · exact Int.le_add_one (Int.le_refl _)

theorem year_le_iff (last n : Int)
    (h : (ofDayNumber last).year < (ofDayNumber (last + 1)).year) :
    (ofDayNumber n).year ≤ (ofDayNumber last).year ↔ n ≤ last := by
  constructor
  · intro hyear
    by_contra hlt
    have := year_mono (show last + 1 ≤ n by omega)
    omega
  · exact year_mono

end Cadence.Date
