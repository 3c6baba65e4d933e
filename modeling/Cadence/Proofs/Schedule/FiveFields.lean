import Cadence.Proofs.Schedule.Search
import Cadence.Proofs.Schedule.Weekdays
import Cadence.Schedule.Kind

/-!
# Five fields mean what a crontab says

An expression of five fields runs at the start of those minutes whose components are in its fields,
with the weekdays of a crontab.
-/

namespace Cadence

namespace Schedule.Crontab

/-- The instant is the start of a minute that the five fields say. -/
structure FiresAt (minute hour day month weekday : List Char) (u : Instant) : Prop where
  year_mem : 1970 ≤ (Date.ofDayNumber u.day).year ∧ (Date.ofDayNumber u.day).year ≤ 2100
  second_eq : u.second % 60 = 0
  nano_eq : u.nano = 0
  minute_mem : Says .minute minute (u.second / 60 % 60)
  hour_mem : Says .hour hour (u.second / 3600)
  day_mem : Says .dayOfMonth day (Date.ofDayNumber u.day).day
  month_mem : Says .month month (Date.ofDayNumber u.day).month
  weekday_mem : Names weekday (Date.weekday u.day)

/-- Each field is a list of its kind: the first four as they stand, the weekdays with names put for
their numbers. -/
structure WellFormed (minute hour day month weekday : List Char) : Prop where
  minute : (fieldOf? .minute minute).isSome
  hour : (fieldOf? .hour hour).isSome
  day : (fieldOf? .dayOfMonth day).isSome
  month : (fieldOf? .month month).isSome
  weekday : ((weekdays? weekday).bind (fieldOf? .weekday)).isSome

/-! ## Reading five fields -/

variable {minute hour day month weekday wd : List Char} {minutes hours days months weekdays : Field}

theorem readField_next {c c' : Component} {cs cs' : List Char} {f f' : Field} (hcs : NoGap cs)
    (h : fieldOf? c cs = some f) (hcs' : NoGap cs') (h' : fieldOf? c' cs' = some f')
    (tail : List Char) : readField c (cs ++ ' ' :: (cs' ++ tail)) = some (f, cs' ++ tail) := by
  obtain ⟨hends, hskip⟩ := Ends.of_field hcs' h' tail
  rw [readField_append hcs h hends, hskip]

theorem ofFields?_eq (hminute : NoGap minute) (hhour : NoGap hour) (hday : NoGap day)
    (hmonth : NoGap month) (hwd : NoGap wd) (hminutes : fieldOf? .minute minute = some minutes)
    (hhours : fieldOf? .hour hour = some hours) (hdays : fieldOf? .dayOfMonth day = some days)
    (hmonths : fieldOf? .month month = some months)
    (hweekdays : fieldOf? .weekday wd = some weekdays) (hread : weekdays? weekday = some wd) :
    ofFields? minute hour day month weekday =
      some ⟨[⟨0, 0, 1⟩], minutes, hours, days, months, weekdays, [.all .year]⟩ := by
  have hseconds : fieldOf? .second ['0'] = some [⟨0, 0, 1⟩] := by decide
  have hyears : fieldOf? .year ['*'] = some [.all .year] := by decide
  have hzero : NoGap ['0'] := by simp [NoGap, isGap]
  have hstar : NoGap ['*'] := by simp [NoGap, isGap]
  have hlast : readField .weekday (wd ++ [' ', '*']) = some (weekdays, ['*']) :=
    readField_next hwd hweekdays hstar hyears []
  have hline : '0' :: [' '] ++ minute ++ [' '] ++ hour ++ [' '] ++ day ++ [' '] ++ month ++ [' '] ++
      wd ++ [' '] ++ ['*'] =
      ['0'] ++ ' ' :: (minute ++ ' ' :: (hour ++ ' ' :: (day ++ ' ' :: (month ++ ' ' ::
        (wd ++ [' ', '*']))))) := by simp
  unfold ofFields?
  rw [hread, Option.bind_eq_bind, Option.bind_some]
  simp only [hline]
  unfold Schedule.ofFields?
  simp only [Option.bind_eq_bind, Option.bind_some,
    readField_next hzero hseconds hminute hminutes, readField_next hminute hminutes hhour hhours,
    readField_next hhour hhours hday hdays, readField_next hday hdays hmonth hmonths,
    readField_next hmonth hmonths hwd hweekdays, hlast, List.isEmpty_cons, Bool.false_eq_true,
    if_false, hyears, Option.pure_def]

theorem weekday_lt (n : Int) : Date.weekday n < 7 := by
  unfold Date.weekday
  omega

theorem mem_zero_iff {n : Nat} : Field.mem [⟨0, 0, 1⟩] n = true ↔ n = 0 := by
  simp [Field.mem, Progression.mem, Nat.mod_one]

theorem mem_years_iff {n : Nat} : Field.mem [.all .year] n = true ↔ 1970 ≤ n ∧ n ≤ 2100 := by
  simp [Field.mem, Progression.mem, Progression.all, Component.low, Component.high, Nat.mod_one]

theorem WellFormed.reads (h : WellFormed minute hour day month weekday)
    (hgaps : ∀ field ∈ [minute, hour, day, month, weekday], NoGap field) :
    ∃ s, ofFields? minute hour day month weekday = some s ∧
      (∀ y, s.years.mem y = true → 1970 ≤ y ∧ y ≤ 2100) ∧
      ∀ u, s.Fires u ↔ FiresAt minute hour day month weekday u := by
  simp only [List.forall_mem_cons, List.not_mem_nil, false_implies, implies_true, and_true] at hgaps
  obtain ⟨hminute, hhour, hday, hmonth, hweekday⟩ := hgaps
  obtain ⟨minutes, hminutes⟩ := Option.isSome_iff_exists.mp h.minute
  obtain ⟨hours, hhours⟩ := Option.isSome_iff_exists.mp h.hour
  obtain ⟨days, hdays⟩ := Option.isSome_iff_exists.mp h.day
  obtain ⟨months, hmonths⟩ := Option.isSome_iff_exists.mp h.month
  obtain ⟨weekdays, hfield⟩ := Option.isSome_iff_exists.mp h.weekday
  obtain ⟨wd, hread, hweekdays⟩ := Option.bind_eq_some_iff.mp hfield
  have hwd := noGap_of_weekdays? hweekday hread
  refine ⟨_, ofFields?_eq hminute hhour hday hmonth hwd hminutes hhours hdays hmonths hweekdays hread,
    fun y => mem_years_iff.mp, fun u => ?_⟩
  have hyear : (Field.mem [.all .year] (Date.ofDayNumber u.day).year.toNat = true) ↔
      1970 ≤ (Date.ofDayNumber u.day).year ∧ (Date.ofDayNumber u.day).year ≤ 2100 := by
    rw [mem_years_iff]
    omega
  constructor
  · rintro ⟨hnano, hadmits, hsecond⟩
    unfold admitsDay at hadmits
    unfold admitsSecond at hsecond
    simp only [Bool.and_eq_true, mem_iff_says hminute hminutes, mem_iff_says hhour hhours,
      mem_iff_says hday hdays, mem_iff_says hmonth hmonths, hyear, mem_zero_iff,
      mem_weekdays_iff hweekday hread hweekdays (weekday_lt u.day)] at hadmits hsecond
    exact ⟨hadmits.2, hsecond.2, hnano, hsecond.1.2, hsecond.1.1, hadmits.1.1.2, hadmits.1.1.1,
      hadmits.1.2⟩
  · rintro ⟨hyears, hsecond, hnano, hminute', hhour', hday', hmonth', hweekday'⟩
    refine ⟨hnano, ?_, ?_⟩
    · unfold admitsDay
      simp only [Bool.and_eq_true, mem_iff_says hday hdays, mem_iff_says hmonth hmonths, hyear,
        mem_weekdays_iff hweekday hread hweekdays (weekday_lt u.day)]
      exact ⟨⟨⟨hmonth', hday'⟩, hweekday'⟩, hyears⟩
    · unfold admitsSecond
      simp only [Bool.and_eq_true, mem_iff_says hminute hminutes, mem_iff_says hhour hhours,
        mem_zero_iff]
      exact ⟨⟨hhour', hminute'⟩, hsecond⟩

end Schedule.Crontab

open Schedule.Crontab

theorem isBlank_of_isGap {ch : Char} (h : Text.isBlank ch = false) : Schedule.isGap ch = false := by
  have hblank : ∀ d ∈ [' ', '\t', '\r', '\n'], Text.isBlank d = true := by simp [Text.isBlank]
  by_contra hgap
  rw [hblank ch (Schedule.isGap_iff.mp (by simpa using hgap))] at h
  cases h

theorem lookup_eq_none_of_pieces {α : Type} {names : List (String × α)}
    (hnames : ∀ x ∈ names, x.1.toList ≠ [] ∧ x.1.toList.all (!Text.isBlank ·) = true)
    {cs : List Char} (hpieces : (Text.pieces cs).length ≠ 1) :
    names.lookup (String.ofList cs) = none := by
  cases hlookup : names.lookup (String.ofList cs) with
  | none => rfl
  | some a =>
    obtain ⟨before, after, hlist, -⟩ := List.lookup_eq_some_iff.mp hlookup
    obtain ⟨hne, hblank⟩ := hnames (_, a) (hlist ▸ List.mem_append_right before List.mem_cons_self)
    rw [String.toList_ofList] at hne hblank
    simp only [List.all_eq_true, Bool.not_eq_true'] at hblank
    rw [Text.pieces_of_noBlank hblank hne] at hpieces
    exact absurd rfl hpieces

theorem ScheduleKind.ofExpression_eq_of_five {expression : String}
    {minute hour day month weekday : List Char}
    (hpieces : Text.pieces expression.toList = [minute, hour, day, month, weekday]) :
    ofExpression expression = (ofFields? minute hour day month weekday).elim .fallback .cron := by
  have htrim : Text.pieces (Text.trim expression.toList) = [minute, hour, day, month, weekday] := by
    rw [Text.pieces_trim, hpieces]
  have hkeyword : keywords.lookup (String.ofList (Text.trim expression.toList)) = none :=
    lookup_eq_none_of_pieces (by decide) (by simp [htrim])
  unfold ofExpression
  simp only [hkeyword]
  unfold cronOf?
  simp only [htrim]
  cases ofFields? minute hour day month weekday <;> rfl

theorem ScheduleKind.ofExpression_of_five {expression : String} {s : Schedule}
    {minute hour day month weekday : List Char}
    (hpieces : Text.pieces expression.toList = [minute, hour, day, month, weekday])
    (hs : ofFields? minute hour day month weekday = some s) :
    ofExpression expression = .cron s := by
  rw [ofExpression_eq_of_five hpieces, hs]
  rfl

theorem noGap_of_mem_pieces {cs p : List Char} (h : p ∈ Text.pieces cs) : Schedule.NoGap p :=
  fun ch hch => isBlank_of_isGap (Text.pieces_noBlank h ch hch)

/-- The next run of five fields is the least start of a minute after the given instant that they
say, and there is none only if they say no later one. One run after the other, all starts of minutes
that they say come after the given instant, in order. -/
theorem nextExecution_of_five_fields {expression : String}
    {minute hour day month weekday : List Char}
    (hpieces : Text.pieces expression.toList = [minute, hour, day, month, weekday])
    (hfields : WellFormed minute hour day month weekday) {t : Instant}
    (hyear : 0 ≤ (Date.ofDayNumber t.day).year) :
    let fires := FiresAt minute hour day month weekday
    (∀ u, nextExecution expression t = some u ↔ IsLeast {v | t < v ∧ fires v} u) ∧
      (nextExecution expression t = none ↔ ∀ v, t < v → ¬ fires v) ∧
      ∃ all : List Instant, all.Pairwise (· < ·) ∧ (∀ v, v ∈ all ↔ t < v ∧ fires v) ∧
        ∀ count, Schedule.firings (nextExecution expression) count t = all.take count := by
  intro fires
  obtain ⟨s, hs, hyears, hfires⟩ :=
    hfields.reads fun field hfield => noGap_of_mem_pieces (hpieces ▸ hfield)
  have hnext : nextExecution expression = s.next? := by
    funext t
    unfold nextExecution
    rw [ScheduleKind.ofExpression_of_five hpieces hs]
    rfl
  rw [hnext]
  simp only [fires, ← hfires]
  exact ⟨fun u => Schedule.next?_eq_some_iff hyears hyear, Schedule.next?_eq_none_iff hyears hyear,
    Schedule.firings_next? hyears hyear⟩

theorem nextExecution_of_leap_day :
    let expression := "5-35/30 */4 29 Feb 0,Wed-Fri"
    let t : Instant := ⟨19781, 43200, 0, by decide, by decide, by decide, by decide⟩
    let u : Instant := ⟨19782, 300, 0, by decide, by decide, by decide, by decide⟩
    let minute := "5-35/30".toList
    let hour := "*/4".toList
    let day := "29".toList
    let month := "Feb".toList
    let weekday := "0,Wed-Fri".toList
    Text.pieces expression.toList = [minute, hour, day, month, weekday] ∧
      WellFormed minute hour day month weekday ∧ 0 ≤ (Date.ofDayNumber t.day).year ∧
      nextExecution expression t = some u ∧
      IsLeast {v | t < v ∧ FiresAt minute hour day month weekday v} u := by
  intro expression t u minute hour day month weekday
  have hpieces : Text.pieces expression.toList = [minute, hour, day, month, weekday] := by
    decide +kernel
  have hfields : WellFormed minute hour day month weekday :=
    ⟨by decide +kernel, by decide +kernel, by decide +kernel, by decide +kernel, by decide +kernel⟩
  have hyear : 0 ≤ (Date.ofDayNumber t.day).year := by decide
  have hnext : nextExecution expression t = some u := by decide +kernel
  exact ⟨hpieces, hfields, hyear, hnext,
    ((nextExecution_of_five_fields hpieces hfields hyear).1 u).mp hnext⟩

end Cadence
