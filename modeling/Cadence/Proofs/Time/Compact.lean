import Cadence.Proofs.Text.Digits
import Cadence.Proofs.Time.Calendar
import Cadence.Time.Stamp
import Mathlib.Order.Monotone.Basic

/-!
# Stamps in file names

The digits of a stamp in a file name are those of two numbers, one for the date and one for the time
of the day. They grow with the time.
-/

namespace Cadence

namespace Date

/-- The digits of a date as one number. -/
def number (d : Date) : Int := d.year * 10000 + d.month * 100 + d.day

theorem number_lt_next {d : Date} (h : d.isValid = true) : d.number < d.next.number := by
  unfold isValid at h
  simp only [Bool.and_eq_true, decide_eq_true_eq] at h
  have hdays := daysInMonth_le d.year d.month
  unfold number next
  repeat' split
  all_goals simp only; omega

theorem number_lt_number {m n : Int} (h : m < n) :
    (ofDayNumber m).number < (ofDayNumber n).number := by
  have hnext (k : Int) : (ofDayNumber k).number < (ofDayNumber (k + 1)).number := by
    rw [ofDayNumber_succ]
    exact number_lt_next (isValid_ofDayNumber k)
  exact strictMono_int_of_lt_succ hnext h

end Date

namespace Instant

/-- The year of an instant has four digits. -/
def HasFourDigitYear (t : Instant) : Prop :=
  0 ≤ (Date.ofDayNumber t.day).year ∧ (Date.ofDayNumber t.day).year ≤ 9999

instance (t : Instant) : Decidable t.HasFourDigitYear :=
  inferInstanceAs (Decidable (_ ∧ _))

/-- The digits of the time of the day as one number, down to the millisecond. -/
def timeNumber (t : Instant) : Nat :=
  (t.second / 3600 * 100 + t.second / 60 % 60) * 100000 + t.second % 60 * 1000 + t.nano / 1000000

def dateNumber (t : Instant) : Nat := (Date.ofDayNumber t.day).number.toNat

theorem timeNumber_lt (t : Instant) : t.timeNumber < 10 ^ 9 := by
  have hsecond := t.second_lt
  have hnano := t.nano_lt
  unfold timeNumber
  omega

theorem HasFourDigitYear.dateNumber_lt {t : Instant} (h : t.HasFourDigitYear) :
    t.dateNumber < 10 ^ 8 := by
  have hvalid := Date.isValid_ofDayNumber t.day
  have hdays := Date.daysInMonth_le (Date.ofDayNumber t.day).year (Date.ofDayNumber t.day).month
  simp only [Date.isValid, Bool.and_eq_true, decide_eq_true_eq] at hvalid
  have hyear := h.2
  unfold dateNumber Date.number
  omega

end Instant

namespace Stamp

open Text

theorem writeCompact_eq {t : Instant} (h : t.HasFourDigitYear) :
    writeCompact t = padded 8 t.dateNumber ++ "_" ++ padded 9 t.timeNumber := by
  have hvalid := Date.isValid_ofDayNumber t.day
  have hdays := Date.daysInMonth_le (Date.ofDayNumber t.day).year (Date.ofDayNumber t.day).month
  simp only [Date.isValid, Bool.and_eq_true, decide_eq_true_eq] at hvalid
  obtain ⟨hlow, hhigh⟩ := h
  have hsecond := t.second_lt
  have hnano := t.nano_lt
  have hdate : padded 4 (Date.ofDayNumber t.day).year.toNat ++
      padded 2 (Date.ofDayNumber t.day).month ++ padded 2 (Date.ofDayNumber t.day).day =
        padded 8 t.dateNumber := by
    have hnumber : t.dateNumber =
        ((Date.ofDayNumber t.day).year.toNat * 10 ^ 2 + (Date.ofDayNumber t.day).month) * 10 ^ 2 +
          (Date.ofDayNumber t.day).day := by
      unfold Instant.dateNumber Date.number
      omega
    rw [padded_append (by decide) (by decide) (by omega) (by omega),
      padded_append (by decide) (by decide) (by omega) (by omega), hnumber]
  have htime : padded 2 (t.second / 3600) ++ padded 2 (t.second / 60 % 60) ++
      padded 2 (t.second % 60 + t.nano / 1000000000) ++ padded 3 (t.nano / 1000000 % 1000) =
        padded 9 t.timeNumber := by
    have hnumber : t.timeNumber =
        ((t.second / 3600 * 10 ^ 2 + t.second / 60 % 60) * 10 ^ 2 +
          (t.second % 60 + t.nano / 1000000000)) * 10 ^ 3 + t.nano / 1000000 % 1000 := by
      unfold Instant.timeNumber
      omega
    rw [padded_append (by decide) (by decide) (by omega) (by omega),
      padded_append (by decide) (by decide) (by omega) (by omega),
      padded_append (by decide) (by decide) (by omega) (by omega), hnumber]
  unfold writeCompact yearText
  simp only [if_pos (And.intro hlow hhigh)]
  rw [← hdate, ← htime]
  simp only [String.append_assoc]

theorem numbers_of_le {s t : Instant} (hyear : s.HasFourDigitYear) (h : s ≤ t) :
    s.dateNumber < t.dateNumber ∨ s.dateNumber = t.dateNumber ∧ s.timeNumber ≤ t.timeNumber := by
  rcases Instant.le_iff.mp h with hday | ⟨hday, htime⟩
  · have hless := Date.number_lt_number hday
    have hpos : 0 ≤ (Date.ofDayNumber s.day).number := by
      unfold Date.number
      have := hyear.1
      omega
    unfold Instant.dateNumber
    omega
  · refine .inr ⟨by unfold Instant.dateNumber; rw [hday], ?_⟩
    have hnano := s.nano_lt
    have hhours (n : Nat) : n / 60 / 60 = n / 3600 := Nat.div_div_eq_div_mul n 60 60
    have hs := hhours s.second
    have ht := hhours t.second
    unfold Instant.timeNumber
    omega

end Stamp

end Cadence
