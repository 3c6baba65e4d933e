import Cadence.Proofs.Text.Digits
import Cadence.Proofs.Time.Calendar
import Cadence.Proofs.Time.Elapsed
import Cadence.Time.Stamp
import Mathlib.Data.List.TakeWhile

/-!
# Time stamps that are read back

Every instant is read back from its stamp, those of any year and of leap seconds included.
-/

namespace Cadence

/-! ## Days -/

namespace Date

theorem dayNumber_ofDayNumber (n : Int) : (ofDayNumber n).dayNumber = n := by
  obtain ⟨y, m, e, h⟩ := exists_isDay n
  rw [h.ofDayNumber_eq]
  obtain ⟨⟨hm0, hm11⟩, he, hn, -⟩ := h
  have hyear : (if (ofMonth y m e).month ≤ 2 then (ofMonth y m e).year - 1
      else (ofMonth y m e).year) = y := by
    unfold ofMonth
    split_ifs <;> simp only at * <;> omega
  have hmonth : (if 2 < (ofMonth y m e).month then ((ofMonth y m e).month : Int) - 3
      else (ofMonth y m e).month + 9) = m := by
    unfold ofMonth
    split_ifs <;> simp only at * <;> omega
  have hday : ((ofMonth y m e).day : Int) = e + 1 := Int.toNat_of_nonneg (by omega)
  unfold dayNumber
  simp only [hyear, hmonth, hday]
  unfold marchStart monthStart at hn
  omega

end Date

namespace Instant

theorem of?_self (t : Instant) : of? t.day t.second t.nano = some t :=
  dif_pos ⟨⟨t.day_ge, t.day_le⟩, t.second_lt, t.nano_lt⟩

theorem ofSeconds?_unixSeconds (t : Instant) : ofSeconds? t.unixSeconds t.nano = some t := by
  have hsecond := t.second_lt
  have hday : t.unixSeconds / 86400 = t.day := by
    unfold unixSeconds
    omega
  have hrest : (t.unixSeconds % 86400).toNat = t.second := by
    unfold unixSeconds
    omega
  unfold ofSeconds?
  rw [hday, hrest, of?_self]

theorem exists_at {day : Int} {second nano : Nat} (hfirst : firstDay ≤ day) (hlast : day ≤ lastDay)
    (hsecond : second < 86400) (hnano : nano < 1000000000) :
    ∃ u : Instant, of? day second nano = some u ∧ u.unixSeconds = day * 86400 + second :=
  ⟨⟨day, second, nano, hfirst, hlast, hsecond, .inl hnano⟩,
    dif_pos ⟨⟨hfirst, hlast⟩, hsecond, .inl hnano⟩, rfl⟩

end Instant

namespace Stamp

open Text

/-! ## Numbers and marks -/

theorem readNumber_padded {width n : Nat} (hwidth : 0 < width) (hn : n < 10 ^ width)
    (rest : List Char) : readNumber width ((padded width n).toList ++ rest) = some (n, rest) := by
  have hlength := length_padded hwidth hn
  have htake : ((padded width n).toList ++ rest).take width = (padded width n).toList := by
    rw [List.take_append_of_le_length (by omega), List.take_of_length_le (by omega)]
  have hdigits : (padded width n).toList.takeWhile Char.isDigit = (padded width n).toList :=
    List.takeWhile_eq_self_iff.mpr fun c => isDigit_of_mem_padded
  unfold readNumber
  simp only [trimStart_padded, htake, hdigits, List.isEmpty_eq_false_iff.mpr (padded_ne_nil width n),
    Bool.false_eq_true, if_false, ofDigitChars_padded, List.drop_left]

theorem readMark_cons {mark : Char} (h : isBlank mark = false) (rest : List Char) :
    readMark mark (mark :: rest) = some rest := by
  unfold readMark trimStart
  rw [List.dropWhile_cons, h]
  simp

/-! ## Parts of varying width -/

theorem readYear_yearText (y : Int) (rest : List Char) :
    readYear ((yearText y).toList ++ '-' :: rest) = some (y, '-' :: rest) := by
  unfold yearText
  by_cases hplain : 0 ≤ y ∧ y ≤ 9999
  · have hread : readNumber 4 ((padded 4 y.toNat).toList ++ '-' :: rest) =
        some (y.toNat, '-' :: rest) := readNumber_padded (by decide) (by omega) _
    rw [if_pos hplain]
    unfold readYear
    rw [trimStart_padded]
    split
    · rename_i heq
      exact absurd heq (padded_append_ne_cons rfl _ _)
    · rename_i heq
      exact absurd heq (padded_append_ne_cons rfl _ _)
    · rw [hread]
      change some ((y.toNat : Int), '-' :: rest) = _
      rw [Int.toNat_of_nonneg hplain.1]
  · have hspan : spanDigits ((padded 4 y.natAbs).toList ++ '-' :: rest) =
        ((padded 4 y.natAbs).toList, '-' :: rest) :=
      spanDigits_append (fun c => isDigit_of_mem_padded) rfl rest
    have hne := List.isEmpty_eq_false_iff.mpr (padded_ne_nil 4 y.natAbs)
    rw [if_neg hplain, String.toList_append]
    by_cases hneg : y < 0
    · rw [if_pos hneg]
      change readYear ('-' :: ((padded 4 y.natAbs).toList ++ '-' :: rest)) = _
      unfold readYear trimStart
      simp only [List.dropWhile_cons, show isBlank '-' = false from rfl, Bool.false_eq_true,
        if_false, hspan, hne, ofDigitChars_padded, Option.some.injEq, Prod.mk.injEq, and_true]
      omega
    · rw [if_neg hneg]
      change readYear ('+' :: ((padded 4 y.natAbs).toList ++ '-' :: rest)) = _
      unfold readYear trimStart
      simp only [List.dropWhile_cons, show isBlank '+' = false from rfl, Bool.false_eq_true,
        if_false, hspan, hne, ofDigitChars_padded, Option.some.injEq, Prod.mk.injEq, and_true]
      omega

theorem readFraction_padded {width n nano : Nat} (hwidth : 0 < width) (hnine : width ≤ 9)
    (hn : n < 10 ^ width) (hnano : 10 ^ (9 - width) * n = nano) (rest : List Char) :
    readFraction ('.' :: ((padded width n).toList ++ 'Z' :: rest)) = some (nano, 'Z' :: rest) := by
  have hspan : spanDigits ((padded width n).toList ++ 'Z' :: rest) =
      ((padded width n).toList, 'Z' :: rest) :=
    spanDigits_append (fun c => isDigit_of_mem_padded) rfl rest
  have hne := List.isEmpty_eq_false_iff.mpr (padded_ne_nil width n)
  have hlength := length_padded hwidth hn
  have hfilled : ((padded width n).toList ++ List.replicate 9 '0').take 9 =
      (padded width n).toList ++ List.replicate (9 - width) '0' := by
    rw [List.take_append, hlength, List.take_of_length_le (by omega), List.take_replicate,
      Nat.min_eq_left (Nat.sub_le 9 width)]
  unfold readFraction
  simp only [hspan, hne, hfilled, Nat.ofDigitChars_append, ofDigitChars_padded,
    Nat.ofDigitChars_replicate_zero, Bool.false_eq_true, if_false, hnano]

theorem readFraction_fractionText {nano : Nat} (hnano : nano < 1000000000) (rest : List Char) :
    readFraction ((fractionText nano).toList ++ 'Z' :: rest) = some (nano, 'Z' :: rest) := by
  unfold fractionText
  split_ifs with hzero hmilli hmicro
  · rw [hzero]
    rfl
  · rw [String.toList_append]
    exact readFraction_padded (by decide) (by decide) (by omega) (by omega) rest
  · rw [String.toList_append]
    exact readFraction_padded (by decide) (by decide) (by omega) (by omega) rest
  · rw [String.toList_append]
    exact readFraction_padded (by decide) (by decide) (by omega) (by omega) rest

/-! ## Whole stamps -/

theorem toList_write (t : Instant) :
    (write t).toList =
      (yearText (Date.ofDayNumber t.day).year).toList ++
      '-' :: ((padded 2 (Date.ofDayNumber t.day).month).toList ++
      '-' :: ((padded 2 (Date.ofDayNumber t.day).day).toList ++
      'T' :: ((padded 2 (t.second / 3600)).toList ++
      ':' :: ((padded 2 (t.second / 60 % 60)).toList ++
      ':' :: ((padded 2 (t.second % 60 + t.nano / 1000000000)).toList ++
      ((fractionText (t.nano % 1000000000)).toList ++ ['Z'])))))) := by
  have hdash : "-".toList = ['-'] := rfl
  have hcolon : ":".toList = [':'] := rfl
  have hgap : "T".toList = ['T'] := rfl
  have hzone : "Z".toList = ['Z'] := rfl
  unfold write writeWith
  simp only [String.toList_append, List.append_assoc, hdash, hcolon, hgap, hzone, List.cons_append,
    List.nil_append]

/-- The instant of the numbers of a stamp. -/
def instantOf? (date : Date) (hour minute second nano : Nat) (offset : Int) (rest : List Char) :
    Option Instant := do
  if !(trimStart rest).isEmpty || !date.isValid then none
  if 24 ≤ hour || 60 ≤ minute || 61 ≤ second || 86400 ≤ offset.natAbs then none
  let local? ← Instant.of? date.dayNumber (hour * 3600 + minute * 60 + min second 59)
    (if second = 60 then 0 else nano)
  Instant.ofSeconds? (local?.unixSeconds - offset) (if second = 60 then nano + 1000000000 else nano)

/-- The part of a stamp behind its date. -/
def readTime (date : Date) (cs : List Char) : Option Instant := do
  let (hour, cs) ← readNumber 2 cs
  let cs ← readMark ':' cs
  let (minute, cs) ← readNumber 2 cs
  let cs ← readMark ':' cs
  let (second, cs) ← readNumber 2 cs
  let (nano, cs) ← readFraction cs
  let (offset, cs) ← readOffset cs
  instantOf? date hour minute second nano offset cs

theorem read?_eq (s : String) : read? s = (do
    let (year, cs) ← readYear s.toList
    let cs ← readMark '-' cs
    let (month, cs) ← readNumber 2 cs
    let cs ← readMark '-' cs
    let (day, cs) ← readNumber 2 cs
    let cs ← match cs with
      | 'T' :: rest => some rest
      | 't' :: rest => some rest
      | ' ' :: rest => some rest
      | _ => none
    readTime ⟨year, month, day⟩ cs) := rfl

theorem readTime_parts (date : Date) {hour minute second nano : Nat} (hhour : hour < 100)
    (hminute : minute < 100) (hsecond : second < 100) (hnano : nano < 1000000000) :
    readTime date ((padded 2 hour).toList ++ ':' :: ((padded 2 minute).toList ++
      ':' :: ((padded 2 second).toList ++ ((fractionText nano).toList ++ ['Z'])))) =
      instantOf? date hour minute second nano 0 [] := by
  have hcolon : isBlank ':' = false := rfl
  have hoffset : readOffset ['Z'] = some (0, []) := rfl
  unfold readTime
  simp only [readNumber_padded (show 0 < 2 by decide) hhour, readMark_cons hcolon,
    readNumber_padded (show 0 < 2 by decide) hminute, Option.bind_eq_bind, Option.bind_some,
    readNumber_padded (show 0 < 2 by decide) hsecond, readFraction_fractionText hnano, hoffset]

theorem instantOf?_parts (t : Instant) :
    instantOf? (Date.ofDayNumber t.day) (t.second / 3600) (t.second / 60 % 60)
      (t.second % 60 + t.nano / 1000000000) (t.nano % 1000000000) 0 [] = some t := by
  have hsecond := t.second_lt
  have hnano := t.nano_lt
  have hsame : t.second / 3600 * 3600 + t.second / 60 % 60 * 60 +
      min (t.second % 60 + t.nano / 1000000000) 59 = t.second := by omega
  -- Where the second is 60, the first half of the long second is read, and the nanoseconds of the
  -- second half are put back afterwards.
  have hshort : (if t.second % 60 + t.nano / 1000000000 = 60 then 0 else t.nano % 1000000000) <
      1000000000 := by
    split_ifs <;> omega
  have hback : (if t.second % 60 + t.nano / 1000000000 = 60 then t.nano % 1000000000 + 1000000000
      else t.nano % 1000000000) = t.nano := by
    split_ifs <;> omega
  obtain ⟨u, hu, hseconds⟩ := Instant.exists_at t.day_ge t.day_le hsecond hshort
  have hseconds : u.unixSeconds - 0 = t.unixSeconds := by rw [hseconds, Int.sub_zero]; rfl
  have hvalid : (!(trimStart []).isEmpty || !(Date.ofDayNumber t.day).isValid) = false := by
    rw [Date.isValid_ofDayNumber]
    rfl
  have hrange : (decide (24 ≤ t.second / 3600) || decide (60 ≤ t.second / 60 % 60) ||
      decide (61 ≤ t.second % 60 + t.nano / 1000000000) || decide (86400 ≤ (0 : Int).natAbs)) =
        false := by
    simp only [Bool.or_eq_false_iff, decide_eq_false_iff_not]
    omega
  unfold instantOf?
  rw [hvalid, hrange, Date.dayNumber_ofDayNumber, if_neg Bool.false_ne_true,
    if_neg Bool.false_ne_true, hsame, hu, Option.bind_eq_bind, Option.bind_some, hseconds, hback,
    Instant.ofSeconds?_unixSeconds]

theorem month_lt_day_lt (n : Int) :
    (Date.ofDayNumber n).month < 100 ∧ (Date.ofDayNumber n).day < 100 := by
  have hvalid := Date.isValid_ofDayNumber n
  have hday := Date.daysInMonth_le (Date.ofDayNumber n).year (Date.ofDayNumber n).month
  simp only [Date.isValid, Bool.and_eq_true, decide_eq_true_eq] at hvalid
  omega

/-- Every instant is read back from its stamp. -/
theorem read?_write (t : Instant) : read? (write t) = some t := by
  have hdash : isBlank '-' = false := rfl
  have hdate := month_lt_day_lt t.day
  have hsecond := t.second_lt
  have hnano := t.nano_lt
  rw [read?_eq, toList_write]
  simp only [readYear_yearText, readMark_cons hdash, Option.bind_eq_bind, Option.bind_some,
    readNumber_padded (show 0 < 2 by decide) hdate.1,
    readNumber_padded (show 0 < 2 by decide) hdate.2]
  rw [readTime_parts _ (by omega) (by omega) (by omega) (by omega)]
  exact instantOf?_parts t

end Stamp

end Cadence
