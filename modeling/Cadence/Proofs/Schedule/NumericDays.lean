import Cadence.Proofs.Schedule.Weekdays

/-!
# Weekdays in numbers

A weekday field of which every item is written in numbers is rewritten to the names of the days that
it says, or it is refused. Which of the two it is, and which days they are, can be told from the
numbers alone.
-/

namespace Cadence.Schedule.Crontab

/-! ## Items of numbers -/

/-- The days of an item, without its step. -/
inductive DayRange
  | every
  | day (n : Nat)
  | range (first last : Nat)
  deriving DecidableEq, Repr

/-- An item of numbers: its days, and the step behind the slash if there is one. -/
structure NumericItem where
  days : DayRange
  step? : Option Nat
  deriving DecidableEq, Repr

/-- The text of days. Numbers are of any length. -/
inductive DayRange.Written : List Char → DayRange → Prop
  | every : Written ['*'] .every
  | day {cs : List Char} {n : Nat} (h : Text.natOf? cs = some n) : Written cs (.day n)
  | range {as bs : List Char} {a b : Nat} (ha : Text.natOf? as = some a)
      (hb : Text.natOf? bs = some b) : Written (as ++ '-' :: bs) (.range a b)

/-- The text of an item of numbers. -/
inductive NumericItem.Written : List Char → NumericItem → Prop
  | plain {cs : List Char} {d : DayRange} (h : d.Written cs) : Written cs ⟨d, none⟩
  | stepped {cs ds : List Char} {d : DayRange} {n : Nat} (h : d.Written cs)
      (hstep : Text.natOf? ds = some n) : Written (cs ++ '/' :: ds) ⟨d, some n⟩

namespace NumericItem

/-- Without a step the days follow each other. -/
def step (i : NumericItem) : Nat := i.step?.getD 1

/-- The first and the last day. A day with a step runs to Saturday, and 7 is the Sunday 0 there. -/
def bounds : NumericItem → Nat × Nat
  | ⟨.every, _⟩ => (0, 6)
  | ⟨.day n, none⟩ => (n, n)
  | ⟨.day n, some _⟩ => (n % 7, 6)
  | ⟨.range first last, _⟩ => (first, last)

/-- The item says the day, 0 for Sunday. -/
def Says (i : NumericItem) (day : Nat) : Prop :=
  ∃ k, i.bounds.1 + k * i.step ≤ i.bounds.2 ∧ (i.bounds.1 + k * i.step) % 7 = day

/-- A day is above 7, the days descend or the step is zero. -/
def Faulty (i : NumericItem) : Prop :=
  i.step = 0 ∨ match i.days with
    | .every => False
    | .day n => 7 < n
    | .range first last => 7 < first ∨ 7 < last ∨ last < first

/-- The item is a 7 with a step, or its step is not a number of 64 bits. -/
def Overlooked (i : NumericItem) : Prop :=
  (i.days = .day 7 ∧ i.step?.isSome = true) ∨ Text.u64Max < i.step

end NumericItem

/-! ## Reading an item -/

variable {cs text : List Char} {i : NumericItem}

/-- The first and the last day as they are read: an open range begins at the number as it stands. -/
def DayRange.read (isOpen : Bool) : DayRange → Nat × Nat
  | .every => (0, 6)
  | .day n => (n, if isOpen then 6 else n)
  | .range first last => (first, last)

/-- The numbers of the days have 64 bits. -/
def DayRange.Fits : DayRange → Prop
  | .every => True
  | .day n => n ≤ Text.u64Max
  | .range first last => first ≤ Text.u64Max ∧ last ≤ Text.u64Max

theorem number?_of_natOf? {n : Nat} (h : Text.natOf? cs = some n) :
    number? cs = if n ≤ Text.u64Max then some n else none := by
  unfold number?
  rw [h, Option.filter_some]
  simp only [decide_eq_true_eq]

theorem DayRange.Written.not_mem {d : DayRange} (h : d.Written cs) {mark : Char}
    (hdigit : mark.isDigit = false) (hmark : mark ∉ ['*', '-']) : mark ∉ cs := by
  cases h with
  | every => exact fun h => hmark (List.mem_append_left ['-'] h)
  | day h => exact not_mem_of_natOf? mark h hdigit
  | range ha hb =>
    have has := not_mem_of_natOf? mark ha hdigit
    have hbs := not_mem_of_natOf? mark hb hdigit
    have hhyphen : mark ≠ '-' := fun h => hmark (h ▸ List.mem_cons_of_mem _ List.mem_cons_self)
    simp [has, hbs, hhyphen]

theorem DayRange.Written.no_slash {d : DayRange} (h : d.Written cs) : '/' ∉ cs :=
  h.not_mem (by decide) (by decide)

theorem NumericItem.Written.no_comma (h : i.Written text) : ',' ∉ text := by
  cases h with
  | plain h => exact h.not_mem (by decide) (by decide)
  | stepped h hstep =>
    have hdays : ',' ∉ _ := h.not_mem (by decide) (by decide)
    have hds := not_mem_of_natOf? ',' hstep (by decide)
    simp [hdays, hds]

theorem itemOf_of_written {d : DayRange} (h : d.Written cs) (text : List Char) (isOpen : Bool)
    (step : Nat) :
    (d.Fits → itemOf text cs isOpen step = some (.days (d.read isOpen).1 (d.read isOpen).2 step)) ∧
      (¬ d.Fits → itemOf text cs isOpen step = none) := by
  unfold itemOf DayRange.Fits
  cases h with
  | every => exact ⟨fun _ => rfl, fun hnot => absurd trivial hnot⟩
  | day h =>
    have hstar : cs ≠ ['*'] := by
      rintro rfl
      exact not_mem_of_natOf? '*' h (by decide) List.mem_cons_self
    rw [if_neg hstar, Text.cut_of_not_mem (not_mem_of_natOf? '-' h (by decide))]
    simp only [isNumeral_iff.mpr ⟨_, h⟩, if_true, number?_of_natOf? h]
    exact ⟨fun hfits => by rw [if_pos hfits]; rfl, fun hnot => by rw [if_neg hnot]; rfl⟩
  | @range as bs a b ha hb =>
    obtain ⟨ch, front, hne⟩ := List.exists_cons_of_ne_nil (Text.digits_of_natOf? ha).1
    have hstar : as ++ '-' :: bs ≠ ['*'] := by simp [hne]
    rw [if_neg hstar, Text.cut_append (not_mem_of_natOf? '-' ha (by decide))]
    simp only [isNumeral_iff.mpr ⟨_, ha⟩, isNumeral_iff.mpr ⟨_, hb⟩, Bool.and_self, if_true,
      number?_of_natOf? ha, number?_of_natOf? hb]
    constructor
    · rintro ⟨hfirst, hlast⟩
      rw [if_pos hfirst, if_pos hlast]
      rfl
    · intro hnot
      by_cases hfirst : a ≤ Text.u64Max
      · rw [if_pos hfirst, if_neg fun hlast => hnot ⟨hfirst, hlast⟩]
        rfl
      · rw [if_neg hfirst]
        rfl

theorem item?_of_written (h : i.Written text) :
    (i.days.Fits ∧ i.step ≤ Text.u64Max → item? text = some (.days
      (i.days.read i.step?.isSome).1 (i.days.read i.step?.isSome).2 i.step)) ∧
      (¬ (i.days.Fits ∧ i.step ≤ Text.u64Max) → item? text = none) := by
  cases h with
  | plain h =>
    obtain ⟨hread, hnone⟩ := itemOf_of_written h text false 1
    rw [item?_of_no_slash h.no_slash]
    have hone : 1 ≤ Text.u64Max := by decide
    exact ⟨fun hfits => hread hfits.1, fun hnot => hnone fun hfits => hnot ⟨hfits, hone⟩⟩
  | @stepped cs ds d n h hstep =>
    obtain ⟨hread, hnone⟩ := itemOf_of_written h (cs ++ '/' :: ds) true n
    rw [item?_of_slash h.no_slash, number?_of_natOf? hstep]
    constructor
    · rintro ⟨hfits, hn⟩
      change n ≤ Text.u64Max at hn
      rw [if_pos hn]
      exact hread hfits
    · intro hnot
      split
      · rename_i hn
        exact hnone fun hfits => hnot ⟨hfits, hn⟩
      · rfl

/-! ## What becomes of an item -/

theorem NumericItem.read_of_good (hfaulty : ¬ i.Faulty) (hoverlooked : ¬ i.Overlooked) :
    (i.days.Fits ∧ i.step ≤ Text.u64Max) ∧ i.days.read i.step?.isSome = i.bounds ∧
      (DayItem.days i.bounds.1 i.bounds.2 i.step).isValid = true := by
  obtain ⟨days, step?⟩ := i
  unfold Faulty at hfaulty
  unfold Overlooked at hoverlooked
  obtain ⟨hstep, hdays⟩ := not_or.mp hfaulty
  obtain ⟨hseven, hshort⟩ := not_or.mp hoverlooked
  have hmax : 7 < Text.u64Max := by decide
  rw [not_lt] at hshort
  have hvalid {first last : Nat} (h : first ≤ last ∧ last ≤ 7) :
      (DayItem.days first last (step ⟨days, step?⟩)).isValid = true :=
    isValid_days_iff.mpr ⟨hstep, by omega, h.2, h.1⟩
  cases days with
  | every => exact ⟨⟨trivial, hshort⟩, rfl, hvalid (show 0 ≤ 6 ∧ 6 ≤ 7 by decide)⟩
  | day n =>
    simp only [not_lt] at hdays
    have hfits : n ≤ Text.u64Max := by omega
    cases step? with
    | none => exact ⟨⟨hfits, hshort⟩, rfl, hvalid ⟨Nat.le_refl n, hdays⟩⟩
    | some m =>
      have hn : n ≠ 7 := fun hn => hseven ⟨congrArg _ hn, rfl⟩
      have hmod : n % 7 = n := Nat.mod_eq_of_lt (by omega)
      refine ⟨⟨hfits, hshort⟩, ?_, hvalid ?_⟩
      · simp only [DayRange.read, bounds, hmod, Option.isSome_some, if_true]
      · simp only [bounds]
        omega
  | range first last =>
    simp only [not_or, not_lt] at hdays
    exact ⟨⟨⟨by omega, by omega⟩, hshort⟩, rfl, hvalid ⟨hdays.2.2, hdays.2.1⟩⟩

theorem NumericItem.good_of_isValid (hshort : i.step ≤ Text.u64Max)
    (h : (DayItem.days (i.days.read i.step?.isSome).1 (i.days.read i.step?.isSome).2
      i.step).isValid = true) : ¬ i.Faulty ∧ ¬ i.Overlooked := by
  obtain ⟨days, step?⟩ := i
  obtain ⟨hstep, hfirst, hlast, horder⟩ := isValid_days_iff.mp h
  unfold Faulty Overlooked
  rw [not_or, not_or, not_lt]
  refine ⟨⟨hstep, ?_⟩, ?_, hshort⟩
  · cases days with
    | every => exact not_false
    | day n => exact not_lt.mpr hfirst
    | range first last => simp only [DayRange.read] at *; omega
  · rintro ⟨rfl, hsome⟩
    -- From 7 on there is no day up to Saturday.
    simp only [DayRange.read, hsome, if_true] at horder
    omega

theorem item?_cases (h : i.Written text) :
    (i.Faulty ∨ i.Overlooked) ∧ (∀ d, item? text = some d → d.isValid = false) ∨
      ¬ (i.Faulty ∨ i.Overlooked) ∧ ∃ d, item? text = some d ∧ d.isValid = true ∧
        (∀ t, d ≠ .verbatim t) ∧ ∀ day, d.selects day = true ↔ i.Says day := by
  obtain ⟨hread, hnone⟩ := item?_of_written h
  by_cases hgood : i.Faulty ∨ i.Overlooked
  · refine .inl ⟨hgood, fun d hd => ?_⟩
    by_cases hfits : i.days.Fits ∧ i.step ≤ Text.u64Max
    · rw [hread hfits, Option.some.injEq] at hd
      subst hd
      by_contra hvalid
      obtain ⟨hfaulty, hoverlooked⟩ :=
        NumericItem.good_of_isValid hfits.2 (by simpa using hvalid)
      exact hgood.elim hfaulty hoverlooked
    · rw [hnone hfits] at hd
      cases hd
  · obtain ⟨hfaulty, hoverlooked⟩ := not_or.mp hgood
    obtain ⟨hfits, hbounds, hvalid⟩ := NumericItem.read_of_good hfaulty hoverlooked
    refine .inr ⟨hgood, _, hread hfits, ?_⟩
    rw [hbounds]
    exact ⟨hvalid, fun t ht => (by cases ht), fun day => selects_iff hvalid⟩

/-! ## Fields of numbers -/

/-- The name of a day, 0 for Sunday. -/
def dayName (day : Nat) : List Char := (dayNames.getD day "").toList

theorem dayTexts_eq (items : List DayItem) :
    dayTexts items =
      ((List.range 7).filter fun day => items.any (·.selects day)).map dayName := by
  have hnames : dayNames.zipIdx = (List.range 7).map fun day => (dayNames.getD day "", day) := by
    decide
  unfold dayTexts
  rw [hnames, List.filter_map, List.map_map]
  rfl

theorem exists_forall₂ {α β : Type} {R : α → β → Prop} {as : List α} (h : ∀ a ∈ as, ∃ b, R a b) :
    ∃ bs, List.Forall₂ R as bs := by
  induction as with
  | nil => exact ⟨[], .nil⟩
  | cons a as ih =>
    rw [List.forall_mem_cons] at h
    obtain ⟨b, hb⟩ := h.1
    obtain ⟨bs, hbs⟩ := ih h.2
    exact ⟨b :: bs, .cons hb hbs⟩

theorem weekdays?_eq_none_iff {field : List Char} (hne : ¬ (field = ['*'] ∨ field = ['?'])) :
    weekdays? field = none ↔
      ∃ t ∈ Text.splitOn ',' field, ∀ d, item? t = some d → d.isValid = false := by
  constructor
  · intro hnone
    by_contra hall
    push Not at hall
    obtain ⟨items, hitems⟩ := exists_forall₂ fun t ht =>
      (hall t ht).imp fun d hd => hd.1
    have hvalid : items.all (·.isValid) = true := by
      rw [List.all_eq_true]
      intro d hd
      obtain ⟨t, ht, hread⟩ := item_of_mem hitems hd
      obtain ⟨d', hread', hd'⟩ := hall t ht
      rw [hread, Option.some.injEq] at hread'
      simpa [hread'] using hd'
    unfold weekdays? at hnone
    rw [if_neg hne, mapM_eq_some_iff.mpr hitems] at hnone
    simp only [Option.bind_eq_bind, Option.bind_some, hvalid, Bool.not_true, Bool.false_eq_true,
      if_false, Option.pure_def, reduceCtorEq] at hnone
  · rintro ⟨t, ht, hbad⟩
    by_contra hsome
    obtain ⟨wd, hwd⟩ := Option.ne_none_iff_exists'.mp hsome
    obtain ⟨items, hitems, hvalid, -⟩ := of_weekdays? hne hwd
    obtain ⟨d, hd, hread⟩ := exists_of_mem_of_forall₂ hitems ht
    exact absurd (hvalid d hd) (by simp [hbad d hread])

section Fields

variable {texts : List (List Char)} {items : List NumericItem}

theorem splitOn_written (hne : texts ≠ []) (h : List.Forall₂ NumericItem.Written texts items) :
    Text.splitOn ',' ([','].intercalate texts) = texts := by
  obtain ⟨t, ts, rfl⟩ := List.exists_cons_of_ne_nil hne
  rw [← Text.joined_eq]
  refine Text.splitOn_joined fun u hu => ?_
  obtain ⟨i, -, hi⟩ := exists_of_mem_of_forall₂ h hu
  exact hi.no_comma

theorem exists_text (h : List.Forall₂ NumericItem.Written texts items) (hi : i ∈ items) :
    ∃ t ∈ texts, i.Written t :=
  exists_of_mem_of_forall₂ h.flip hi

theorem good_of_star (hitem : i.Written ['*']) : ¬ (i.Faulty ∨ i.Overlooked) := by
  rcases item?_cases hitem with ⟨-, hbad⟩ | ⟨hgood, -⟩
  · exact absurd (hbad _ rfl) (by decide)
  · exact hgood

theorem not_written_mark : ¬ i.Written ['?'] := by
  intro hitem
  rcases item?_cases hitem with ⟨-, hbad⟩ | ⟨-, d, hd, -, hverbatim, -⟩
  · exact absurd (hbad _ rfl) (by decide)
  · exact hverbatim _ (Option.some.inj hd).symm

theorem exists_refused_iff (h : List.Forall₂ NumericItem.Written texts items) :
    (∃ t ∈ texts, ∀ d, item? t = some d → d.isValid = false) ↔
      ∃ i ∈ items, i.Faulty ∨ i.Overlooked := by
  constructor
  · rintro ⟨t, ht, hbad⟩
    obtain ⟨i, hi, hitem⟩ := exists_of_mem_of_forall₂ h ht
    rcases item?_cases hitem with ⟨hrefused, -⟩ | ⟨-, d, hd, hvalid, -⟩
    · exact ⟨i, hi, hrefused⟩
    · rw [hbad d hd] at hvalid
      cases hvalid
  · rintro ⟨i, hi, hrefused⟩
    obtain ⟨t, ht, hitem⟩ := exists_text h hi
    rcases item?_cases hitem with ⟨-, hbad⟩ | ⟨hgood, -⟩
    · exact ⟨t, ht, hbad⟩
    · exact absurd hrefused hgood

theorem selects_iff_says (h : List.Forall₂ NumericItem.Written texts items) {ds : List DayItem}
    (hread : List.Forall₂ (fun t d => item? t = some d) texts ds)
    (hvalid : ∀ d ∈ ds, d.isValid = true) :
    verbatimTexts ds = [] ∧
      ∀ day, (∃ d ∈ ds, d.selects day = true) ↔ ∃ i ∈ items, i.Says day := by
  have hcases {t : List Char} {i : NumericItem} {d : DayItem} (hitem : i.Written t)
      (hd : item? t = some d) (hmem : d ∈ ds) :
      (∀ t, d ≠ .verbatim t) ∧ ∀ day, d.selects day = true ↔ i.Says day := by
    rcases item?_cases hitem with ⟨-, hbad⟩ | ⟨-, d', hd', -, hselects⟩
    · exact absurd (hvalid d hmem) (by simp [hbad d hd])
    · rw [hd, Option.some.injEq] at hd'
      exact hd' ▸ hselects
  constructor
  · rw [List.eq_nil_iff_forall_not_mem]
    intro t ht
    have hmem := mem_verbatimTexts_iff.mp ht
    obtain ⟨u, hu, hd⟩ := item_of_mem hread hmem
    obtain ⟨i, -, hitem⟩ := exists_of_mem_of_forall₂ h hu
    exact (hcases hitem hd hmem).1 t rfl
  · intro day
    constructor
    · rintro ⟨d, hmem, hday⟩
      obtain ⟨u, hu, hd⟩ := item_of_mem hread hmem
      obtain ⟨i, hi, hitem⟩ := exists_of_mem_of_forall₂ h hu
      exact ⟨i, hi, ((hcases hitem hd hmem).2 day).mp hday⟩
    · rintro ⟨i, hi, hday⟩
      obtain ⟨t, ht, hitem⟩ := exists_text h hi
      obtain ⟨d, hmem, hd⟩ := exists_of_mem_of_forall₂ hread ht
      exact ⟨d, hmem, ((hcases hitem hd hmem).2 day).mpr hday⟩

theorem exists_item_of_single (hne : texts ≠ []) (h : List.Forall₂ NumericItem.Written texts items)
    {ch : Char} (hch : ch ≠ ',') (hfield : [','].intercalate texts = [ch]) :
    texts = [[ch]] ∧ ∃ i ∈ items, i.Written [ch] := by
  have htexts : texts = [[ch]] := by
    rw [← splitOn_written hne h, hfield, Text.splitOn, if_neg hch]
    rfl
  exact ⟨htexts, exists_of_mem_of_forall₂ h (htexts ▸ List.mem_singleton_self _)⟩

/-- A list of items of numbers is refused exactly for an item with a fault or for one that is
overlooked: a 7 with a step, or a step of more than 64 bits. A star alone stays as it is. Any other
list is rewritten to the names of the days that it says, each once, from Sunday to Saturday. -/
theorem weekdays?_of_numbers (hne : texts ≠ [])
    (h : List.Forall₂ NumericItem.Written texts items) :
    let field := [','].intercalate texts
    (weekdays? field = none ↔ ∃ i ∈ items, i.Faulty ∨ i.Overlooked) ∧
      (field = ['*'] → weekdays? field = some ['*']) ∧
      ∀ wd, field ≠ ['*'] → weekdays? field = some wd →
        ∃ days : List Nat, days.Pairwise (· < ·) ∧
          (∀ day, day ∈ days ↔ ∃ i ∈ items, i.Says day) ∧
          wd = [','].intercalate (days.map dayName) := by
  intro field
  have hsplit : Text.splitOn ',' field = texts := splitOn_written hne h
  have hstar : field = ['*'] → weekdays? field = some ['*'] := by
    intro heq
    rw [heq]
    rfl
  have hmark : field ≠ ['?'] := by
    intro heq
    obtain ⟨-, i, -, hitem⟩ := exists_item_of_single hne h (by decide) heq
    exact not_written_mark hitem
  refine ⟨?_, hstar, ?_⟩
  · by_cases heq : field = ['*']
    · rw [hstar heq]
      simp only [reduceCtorEq, false_iff, not_exists, not_and]
      intro i hi
      obtain ⟨t, ht, hitem⟩ := exists_text h hi
      rw [(exists_item_of_single hne h (by decide) heq).1, List.mem_singleton] at ht
      exact good_of_star (ht ▸ hitem)
    · rw [weekdays?_eq_none_iff (not_or.mpr ⟨heq, hmark⟩), hsplit, exists_refused_iff h]
  · intro wd heq hwd
    obtain ⟨ds, hread, hvalid, rfl⟩ := of_weekdays? (not_or.mpr ⟨heq, hmark⟩) hwd
    rw [hsplit] at hread
    obtain ⟨hverbatim, hdays⟩ := selects_iff_says h hread hvalid
    refine ⟨(List.range 7).filter fun day => ds.any (·.selects day),
      List.pairwise_lt_range.filter _, fun day => ?_, ?_⟩
    · rw [List.mem_filter, List.mem_range, List.any_eq_true, hdays]
      constructor
      · exact fun hday => hday.2
      · rintro ⟨i, hi, k, hle, rfl⟩
        exact ⟨Nat.mod_lt _ (by decide), i, hi, k, hle, rfl⟩
    · rw [hverbatim, List.append_nil, dayTexts_eq]

end Fields

theorem weekdays?_of_three_items :
    let texts := ["7".toList, "0-0".toList, "3/2".toList]
    let items : List NumericItem := [⟨.day 7, none⟩, ⟨.range 0 0, none⟩, ⟨.day 3, some 2⟩]
    texts ≠ [] ∧ List.Forall₂ NumericItem.Written texts items ∧
      ∃ days : List Nat, (∀ day, day ∈ days ↔ ∃ i ∈ items, i.Says day) ∧
        "Sun,Wed,Fri".toList = [','].intercalate (days.map dayName) := by
  intro texts items
  have hrange : DayRange.Written "0-0".toList (.range 0 0) :=
    @DayRange.Written.range "0".toList "0".toList _ _ rfl rfl
  have hstepped : NumericItem.Written "3/2".toList ⟨.day 3, some 2⟩ :=
    @NumericItem.Written.stepped "3".toList "2".toList _ _ (.day rfl) rfl
  have hwritten : List.Forall₂ NumericItem.Written texts items :=
    .cons (.plain (.day rfl)) (.cons (.plain hrange) (.cons hstepped .nil))
  have hne : texts ≠ [] := List.cons_ne_nil _ _
  obtain ⟨-, -, hsome⟩ := weekdays?_of_numbers hne hwritten
  obtain ⟨days, -, hdays, hwd⟩ := hsome "Sun,Wed,Fri".toList (by decide) (by decide)
  exact ⟨hne, hwritten, days, hdays, hwd⟩

/-- Every second day from a Sunday on that is written as 7 is refused, and so is a star with a step
of 65 bits. Neither item has a fault. -/
theorem weekdays?_refuses_items_in_order :
    let sunday : NumericItem := ⟨.day 7, some 2⟩
    let long : NumericItem := ⟨.every, some 18446744073709551616⟩
    sunday.Written "7/2".toList ∧ ¬ sunday.Faulty ∧ weekdays? "7/2".toList = none ∧
      long.Written "*/18446744073709551616".toList ∧ ¬ long.Faulty ∧
      weekdays? "*/18446744073709551616".toList = none := by
  intro sunday long
  have hsunday : ¬ sunday.Faulty := by
    unfold NumericItem.Faulty
    decide
  have hlong : ¬ long.Faulty := by
    unfold NumericItem.Faulty
    exact not_or.mpr ⟨by decide, not_false⟩
  exact ⟨@NumericItem.Written.stepped "7".toList "2".toList _ _ (.day rfl) rfl, hsunday,
    by decide +kernel,
    @NumericItem.Written.stepped "*".toList "18446744073709551616".toList _ _ .every rfl, hlong,
    by decide +kernel⟩

end Cadence.Schedule.Crontab
