import Cadence.Proofs.Schedule.Reader
import Cadence.Schedule.Crontab

/-!
# Weekdays of a crontab

The days that a weekday field names in the numbering of a crontab, from its text alone, and the days
of the field that it is rewritten to: they are the same.
-/

namespace Cadence.Schedule.Crontab

/-! ## What a field says

Sunday is 0 and 7. -/

/-- The text of a range of days. -/
inductive DaysText : List Char → Nat → Nat → Prop
  | star : DaysText ['*'] 0 6
  | mark : DaysText ['?'] 0 6
  | numbers {as bs : List Char} {a b : Nat} (ha : Text.natOf? as = some a)
      (hb : Text.natOf? bs = some b) : DaysText (as ++ '-' :: bs) a b
  | names {as bs : List Char} {a b : Nat} (ha : Component.weekday.named? as = some (a + 1))
      (hb : Component.weekday.named? bs = some (b + 1)) : DaysText (as ++ '-' :: bs) a b

/-- The text of an item with its first day, its last day and its step. -/
inductive DayItemText : List Char → Nat → Nat → Nat → Prop
  | range {cs : List Char} {a b : Nat} (h : DaysText cs a b) : DayItemText cs a b 1
  | stepped {cs ds : List Char} {a b step : Nat} (h : DaysText cs a b)
      (hstep : Text.natOf? ds = some step) : DayItemText (cs ++ '/' :: ds) a b step
  | number {cs : List Char} {a : Nat} (h : Text.natOf? cs = some a) : DayItemText cs a a 1
  /-- A number with a step runs to Saturday. -/
  | openEnd {cs ds : List Char} {a step : Nat} (h : Text.natOf? cs = some a)
      (hstep : Text.natOf? ds = some step) : DayItemText (cs ++ '/' :: ds) a 6 step
  | name {cs : List Char} {a : Nat} (h : Component.weekday.named? cs = some (a + 1)) :
      DayItemText cs a a 1

/-- The item names the day, 0 for Sunday. -/
def ItemNames (text : List Char) (day : Nat) : Prop :=
  ∃ first last step, DayItemText text first last step ∧
    ∃ k, first + k * step ≤ last ∧ (first + k * step) % 7 = day

def Names (field : List Char) (day : Nat) : Prop :=
  ∃ item ∈ Text.splitOn ',' field, ItemNames item day

/-! ## Numbers and names -/

variable {cs ds text : List Char} {a b step : Nat}

theorem isNumeral_iff : Text.isNumeral cs = true ↔ ∃ n, Text.natOf? cs = some n := by
  unfold Text.natOf?
  split
  · rename_i h
    exact ⟨fun _ => ⟨_, rfl⟩, fun _ => h⟩
  · rename_i h
    exact ⟨fun h' => absurd h' h, fun ⟨_, h'⟩ => by cases h'⟩

theorem not_mem_of_natOf? (ch : Char) (h : Text.natOf? cs = some a) (hch : ch.isDigit = false) :
    ch ∉ cs := by
  intro hmem
  rw [(Text.digits_of_natOf? h).2 ch hmem] at hch
  cases hch

theorem nameText_of_named? (h : Component.weekday.named? cs = some a) : NameText cs := by
  have hnames : ∀ x ∈ Component.weekday.names,
      x.1.toList ≠ [] ∧ x.1.toList.all Char.isAlpha = true := by decide
  obtain ⟨hne, hletters⟩ := hnames _ (mem_names_of_named? h)
  rw [String.toList_ofList] at hne hletters
  rw [List.all_eq_true] at hletters
  refine ⟨fun hnil => hne (by rw [hnil]; rfl), fun ch hch => ?_⟩
  exact Text.isAlpha_of_toLower (hletters ch.toLower (List.mem_map_of_mem hch))

theorem exists_eq_succ_of_named? (h : Component.weekday.named? cs = some a) : ∃ b, a = b + 1 :=
  Nat.exists_eq_add_of_le' (named?_bounds h).1

theorem not_mem_of_nameText (ch : Char) (h : NameText cs) (hch : ch.isAlpha = false) : ch ∉ cs := by
  intro hmem
  rw [h.2 ch hmem] at hch
  cases hch

theorem isNumeral_of_nameText (h : NameText cs) : Text.isNumeral cs = false := by
  obtain ⟨ch, front, rfl⟩ := List.exists_cons_of_ne_nil h.1
  by_contra hnumeral
  obtain ⟨n, hn⟩ := isNumeral_iff.mp (by simpa using hnumeral)
  have := isAlpha_of_isDigit ((Text.digits_of_natOf? hn).2 ch List.mem_cons_self)
  rw [h.2 ch List.mem_cons_self] at this
  cases this

/-! ## Reading an item -/

/-- An item of a base and a step; a base with a step is open where it is a number. -/
def itemOf (text base : List Char) (isOpen : Bool) (step : Nat) : Option DayItem :=
  if base = ['*'] then some (.days 0 6 step)
  else
    match Text.cut '-' base with
    | (a, some b) =>
      if Text.isNumeral a && Text.isNumeral b then do
        return .days (← number? a) (← number? b) step
      else some (.verbatim text)
    | (_, none) =>
      if Text.isNumeral base then do
        let first ← number? base
        return .days first (if isOpen then 6 else first) step
      else some (.verbatim text)

theorem item?_of_no_slash (h : '/' ∉ cs) : item? cs = itemOf cs cs false 1 := by
  unfold item?
  rw [Text.cut_of_not_mem h]
  rfl

theorem item?_of_slash (h : '/' ∉ cs) :
    item? (cs ++ '/' :: ds) = (number? ds).bind (itemOf (cs ++ '/' :: ds) cs true) := by
  unfold item?
  rw [Text.cut_append h]
  simp only [stepOf?]
  cases number? ds <;> rfl

theorem eq_of_number? {n : Nat} (h : Text.natOf? cs = some a) (hn : number? cs = some n) : n = a := by
  unfold number? at hn
  rw [h, Option.filter_eq_some_iff] at hn
  exact (Option.some.inj hn.1).symm

theorem natOf?_of_number? {n : Nat} (h : number? cs = some n) : Text.natOf? cs = some n := by
  unfold number? at h
  exact (Option.filter_eq_some_iff.mp h).1

variable {isOpen : Bool} {i : DayItem}

theorem itemOf_numbers {as bs : List Char} (ha : Text.natOf? as = some a)
    (hb : Text.natOf? bs = some b) (h : itemOf text (as ++ '-' :: bs) isOpen step = some i) :
    i = .days a b step := by
  obtain ⟨ch, front, hne⟩ := List.exists_cons_of_ne_nil (Text.digits_of_natOf? ha).1
  have hstar : as ++ '-' :: bs ≠ ['*'] := by simp [hne]
  have hnumerals : (Text.isNumeral as && Text.isNumeral bs) = true := by
    rw [isNumeral_iff.mpr ⟨a, ha⟩, isNumeral_iff.mpr ⟨b, hb⟩]
    rfl
  unfold itemOf at h
  rw [if_neg hstar, Text.cut_append (not_mem_of_natOf? _ ha (by decide))] at h
  simp only [hnumerals, if_true, Option.bind_eq_bind, Option.bind_eq_some_iff, Option.pure_def,
    Option.some.injEq] at h
  obtain ⟨m, hm, n, hn, rfl⟩ := h
  rw [eq_of_number? ha hm, eq_of_number? hb hn]

theorem itemOf_number (ha : Text.natOf? cs = some a) (h : itemOf text cs isOpen step = some i) :
    i = .days a (if isOpen then 6 else a) step := by
  have hstar : cs ≠ ['*'] := by
    rintro rfl
    exact not_mem_of_natOf? _ ha (by decide) List.mem_cons_self
  unfold itemOf at h
  rw [if_neg hstar, Text.cut_of_not_mem (not_mem_of_natOf? _ ha (by decide))] at h
  simp only [isNumeral_iff.mpr ⟨a, ha⟩, if_true, Option.bind_eq_bind, Option.bind_eq_some_iff,
    Option.pure_def, Option.some.injEq] at h
  obtain ⟨n, hn, rfl⟩ := h
  rw [eq_of_number? ha hn]

theorem itemOf_name (h : NameText cs) (text : List Char) (isOpen : Bool) (step : Nat) :
    itemOf text cs isOpen step = some (.verbatim text) := by
  have hstar : cs ≠ ['*'] := by
    rintro rfl
    exact not_mem_of_nameText _ h (by decide) List.mem_cons_self
  unfold itemOf
  rw [if_neg hstar, Text.cut_of_not_mem (not_mem_of_nameText _ h (by decide))]
  simp only [isNumeral_of_nameText h, Bool.false_eq_true, if_false]

theorem itemOf_names {as bs : List Char} (ha : NameText as) (text : List Char) (isOpen : Bool)
    (step : Nat) : itemOf text (as ++ '-' :: bs) isOpen step = some (.verbatim text) := by
  obtain ⟨ch, front, hne⟩ := List.exists_cons_of_ne_nil ha.1
  have hstar : as ++ '-' :: bs ≠ ['*'] := by simp [hne]
  unfold itemOf
  rw [if_neg hstar, Text.cut_append (not_mem_of_nameText _ ha (by decide))]
  simp only [isNumeral_of_nameText ha, Bool.false_and, Bool.false_eq_true, if_false]

theorem itemOf_cases (h : itemOf text cs isOpen step = some i) :
    (cs = ['*'] ∧ i = .days 0 6 step) ∨
    (∃ as bs a b, cs = as ++ '-' :: bs ∧ Text.natOf? as = some a ∧ Text.natOf? bs = some b ∧
      i = .days a b step) ∨
    (∃ a, Text.natOf? cs = some a ∧ i = .days a (if isOpen then 6 else a) step) ∨
    i = .verbatim text := by
  unfold itemOf at h
  split at h
  · rename_i hstar
    cases h
    exact .inl ⟨hstar, rfl⟩
  · rcases Text.cut_cases '-' cs with ⟨-, hcut⟩ | ⟨as, bs, rfl, -, hcut⟩
    all_goals
      rw [hcut] at h
      simp only at h
      split at h
      case isFalse =>
        cases h
        exact .inr (.inr (.inr rfl))
      simp only [Option.bind_eq_bind, Option.bind_eq_some_iff, Option.pure_def,
        Option.some.injEq] at h
    · obtain ⟨n, hn, rfl⟩ := h
      exact .inr (.inr (.inl ⟨n, natOf?_of_number? hn, rfl⟩))
    · obtain ⟨m, hm, n, hn, rfl⟩ := h
      exact .inr (.inl ⟨as, bs, m, n, rfl, natOf?_of_number? hm, natOf?_of_number? hn, rfl⟩)

theorem of_itemOf {n : Nat} (h : itemOf text cs isOpen step = some (.days a b n)) :
    n = step ∧ (DaysText cs a b ∨ Text.natOf? cs = some a ∧ b = if isOpen then 6 else a) := by
  rcases itemOf_cases h with ⟨rfl, hi⟩ | ⟨as, bs, m, n, rfl, hm, hn, hi⟩ | ⟨m, hm, hi⟩ | hi
  all_goals cases hi
  · exact ⟨rfl, .inl .star⟩
  · exact ⟨rfl, .inl (.numbers hm hn)⟩
  · exact ⟨rfl, .inr ⟨hm, rfl⟩⟩

theorem eq_of_itemOf_verbatim {t : List Char}
    (h : itemOf text cs isOpen step = some (.verbatim t)) : t = text := by
  rcases itemOf_cases h with ⟨-, hi⟩ | ⟨as, bs, m, n, -, -, -, hi⟩ | ⟨m, -, hi⟩ | hi
  all_goals cases hi
  rfl

/-! ## Ranges

A range of days is read as it is, or it is left to the reader of schedules. -/

theorem DaysText.no_slash (h : DaysText cs a b) : '/' ∉ cs := by
  cases h with
  | star => decide
  | mark => decide
  | numbers ha hb =>
    have has := not_mem_of_natOf? '/' ha (by decide)
    have hbs := not_mem_of_natOf? '/' hb (by decide)
    simp [has, hbs]
  | names ha hb =>
    have has := not_mem_of_nameText '/' (nameText_of_named? ha) (by decide)
    have hbs := not_mem_of_nameText '/' (nameText_of_named? hb) (by decide)
    simp [has, hbs]

theorem DaysText.itemOf (h : DaysText cs a b) (hi : itemOf text cs isOpen step = some i) :
    i = .days a b step ∨ i = .verbatim text ∧ ∃ s, SpecifierText .weekday cs s ∧
      ∀ o first last, s.bounds? .weekday o = some (first, last) → first = a + 1 ∧ last = b + 1 := by
  cases h with
  | star =>
    cases hi
    exact .inl rfl
  | mark =>
    cases hi
    refine .inr ⟨rfl, .all, .mark rfl, fun o first last hbounds => ?_⟩
    cases hbounds
    exact ⟨rfl, rfl⟩
  | numbers ha hb => exact .inl (itemOf_numbers ha hb hi)
  | @names as bs a b ha hb =>
    rw [itemOf_names (nameText_of_named? ha)] at hi
    cases hi
    refine .inr ⟨rfl, .namedRange as bs, .names (nameText_of_named? ha) (nameText_of_named? hb),
      fun o first last hbounds => ?_⟩
    unfold Specifier.bounds? at hbounds
    simp only [ha, hb, Option.bind_eq_bind, Option.bind_some] at hbounds
    exact (range?_eq_some_iff.mp hbounds).1

theorem daysText_of_specifier {s : Specifier} {t : List Char} {o : Bool} {first last : Nat}
    (h : SpecifierText .weekday cs s) (hv : Crontab.itemOf text cs isOpen step = some (.verbatim t))
    (hbounds : s.bounds? .weekday o = some (first, last)) :
    ∃ a b, (first = a + 1 ∧ last = b + 1) ∧ DaysText cs a b := by
  cases h with
  | star =>
    cases hbounds
    exact ⟨0, 6, ⟨rfl, rfl⟩, .star⟩
  | mark =>
    cases hbounds
    exact ⟨0, 6, ⟨rfl, rfl⟩, .mark⟩
  | point hn => cases itemOf_number hn.1 hv
  | range ha hb => cases itemOf_numbers ha.1 hb.1 hv
  | @names as bs ha hb =>
    unfold Specifier.bounds? at hbounds
    simp only [Option.bind_eq_bind, Option.bind_eq_some_iff] at hbounds
    obtain ⟨m, hm, n, hn, hrange⟩ := hbounds
    obtain ⟨⟨rfl, rfl⟩, -⟩ := range?_eq_some_iff.mp hrange
    obtain ⟨a, rfl⟩ := exists_eq_succ_of_named? hm
    obtain ⟨b, rfl⟩ := exists_eq_succ_of_named? hn
    exact ⟨a, b, ⟨rfl, rfl⟩, .names hm hn⟩

/-! ## Items -/

/-- An item is read as its text says. Where it is left to the reader of schedules, that reader finds
the same days, which it counts from 1. -/
theorem item?_of_text (h : DayItemText cs a b step) (hi : item? cs = some i) :
    i = .days a b step ∨
      i = .verbatim cs ∧ ∀ p, ProgressionText .weekday cs p → p = ⟨a + 1, b + 1, step⟩ := by
  cases h with
  | range h =>
    rw [item?_of_no_slash h.no_slash] at hi
    refine (h.itemOf hi).imp_right fun ⟨hi, s, hs, hbounds⟩ => ⟨hi, ?_⟩
    rintro p ⟨j, hj, hp⟩
    obtain rfl := hj.unique (.plain hs)
    obtain ⟨first, last, hsome, rfl⟩ := progression?_plain.mp hp
    obtain ⟨rfl, rfl⟩ := hbounds _ _ _ hsome
    rfl
  | @stepped cs ds a b step h hstep =>
    rw [item?_of_slash h.no_slash, Option.bind_eq_some_iff] at hi
    obtain ⟨n, hn, hi⟩ := hi
    obtain rfl := eq_of_number? hstep hn
    refine (h.itemOf hi).imp_right fun ⟨hi, s, hs, hbounds⟩ => ⟨hi, ?_⟩
    rintro p ⟨j, hj, hp⟩
    obtain ⟨s', m, rfl, hs', hm⟩ := hj.of_slash h.no_slash
    obtain rfl := hs'.unique hs
    obtain rfl : m = n := Option.some.inj (hm.1.symm.trans hstep)
    obtain ⟨-, first, last, hsome, rfl⟩ := progression?_stepped.mp hp
    obtain ⟨rfl, rfl⟩ := hbounds _ _ _ hsome
    rfl
  | number h =>
    rw [item?_of_no_slash (not_mem_of_natOf? _ h (by decide))] at hi
    exact .inl (itemOf_number h hi)
  | openEnd h hstep =>
    rw [item?_of_slash (not_mem_of_natOf? _ h (by decide)), Option.bind_eq_some_iff] at hi
    obtain ⟨n, hn, hi⟩ := hi
    obtain rfl := eq_of_number? hstep hn
    exact .inl (itemOf_number h hi)
  | name h =>
    have hname := nameText_of_named? h
    rw [item?_of_no_slash (not_mem_of_nameText _ hname (by decide)), itemOf_name hname] at hi
    cases hi
    refine .inr ⟨rfl, ?_⟩
    rintro p ⟨j, hj, hp⟩
    obtain rfl := hj.unique (.named hname)
    obtain ⟨n, hn, rfl⟩ := progression?_named.mp hp
    obtain rfl : a + 1 = n := Option.some.inj (h.symm.trans hn)
    rfl

theorem text_of_days (h : item? cs = some (.days a b step)) : DayItemText cs a b step := by
  rcases Text.cut_cases '/' cs with ⟨hno, -⟩ | ⟨base, ds, rfl, hno, -⟩
  · rw [item?_of_no_slash hno] at h
    obtain ⟨rfl, hrange | ⟨hnumber, rfl⟩⟩ := of_itemOf h
    · exact .range hrange
    · exact .number hnumber
  · rw [item?_of_slash hno, Option.bind_eq_some_iff] at h
    obtain ⟨n, hn, h⟩ := h
    have hstep := natOf?_of_number? hn
    obtain ⟨rfl, hrange | ⟨hnumber, rfl⟩⟩ := of_itemOf h
    · exact .stepped hrange hstep
    · exact .openEnd hnumber hstep

theorem eq_of_item?_verbatim {t : List Char} (h : item? cs = some (.verbatim t)) : t = cs := by
  rcases Text.cut_cases '/' cs with ⟨hno, -⟩ | ⟨base, ds, rfl, hno, -⟩
  · rw [item?_of_no_slash hno] at h
    exact eq_of_itemOf_verbatim h
  · rw [item?_of_slash hno, Option.bind_eq_some_iff] at h
    obtain ⟨n, -, h⟩ := h
    exact eq_of_itemOf_verbatim h

theorem text_of_verbatim {t : List Char} {p : Progression} (h : item? cs = some (.verbatim t))
    (hp : ProgressionText .weekday cs p) :
    ∃ a b, p = ⟨a + 1, b + 1, p.step⟩ ∧ DayItemText cs a b p.step := by
  obtain ⟨j, hj, hp⟩ := hp
  cases hj with
  | plain hs =>
    rw [item?_of_no_slash hs.no_slash] at h
    obtain ⟨first, last, hbounds, rfl⟩ := progression?_plain.mp hp
    obtain ⟨a, b, ⟨rfl, rfl⟩, hdays⟩ := daysText_of_specifier hs h hbounds
    exact ⟨a, b, rfl, .range hdays⟩
  | stepped hs hstep =>
    rw [item?_of_slash hs.no_slash, Option.bind_eq_some_iff] at h
    obtain ⟨n, hn, h⟩ := h
    obtain ⟨-, first, last, hbounds, rfl⟩ := progression?_stepped.mp hp
    obtain ⟨a, b, ⟨rfl, rfl⟩, hdays⟩ := daysText_of_specifier hs h hbounds
    exact ⟨a, b, rfl, .stepped hdays hstep.1⟩
  | named hname =>
    obtain ⟨n, hn, rfl⟩ := progression?_named.mp hp
    obtain ⟨a, rfl⟩ := exists_eq_succ_of_named? hn
    exact ⟨a, a, rfl, .name hn⟩

/-! ## The days of an item -/

theorem mem_succ_iff {day : Nat} :
    (Progression.mk (a + 1) (b + 1) step).mem (day + 1) = true ↔
      ∃ k, a + k * step ≤ b ∧ a + k * step = day := by
  rw [Progression.mem_iff]
  constructor
  · rintro ⟨k, hk, hle⟩
    simp only at hk hle
    exact ⟨k, by omega, by omega⟩
  · rintro ⟨k, hle, rfl⟩
    exact ⟨k, by simp only; omega, by simp only; omega⟩

theorem isValid_days_iff {a b step : Nat} : (DayItem.days a b step).isValid = true ↔
    step ≠ 0 ∧ a ≤ 7 ∧ b ≤ 7 ∧ a ≤ b := by
  unfold DayItem.isValid
  simp only [Bool.and_eq_true, decide_eq_true_eq, and_assoc]

theorem selects_iff {day : Nat} (hvalid : (DayItem.days a b step).isValid = true) :
    (DayItem.days a b step).selects day = true ↔
      ∃ k, a + k * step ≤ b ∧ (a + k * step) % 7 = day := by
  obtain ⟨-, -, hlast, -⟩ := isValid_days_iff.mp hvalid
  unfold DayItem.selects
  simp only [List.any_eq_true, List.mem_range, Bool.and_eq_true, decide_eq_true_eq]
  constructor
  · rintro ⟨n, -, ⟨⟨hday, hfirst⟩, hle⟩, hmod⟩
    have hmem : (Progression.mk a b step).mem n = true := by
      simp [Progression.mem, hfirst, hle, hmod]
    obtain ⟨k, rfl, hle⟩ := Progression.mem_iff.mp hmem
    exact ⟨k, hle, hday⟩
  · rintro ⟨k, hle, hday⟩
    exact ⟨a + k * step, by omega, ⟨⟨hday, by omega⟩, hle⟩, by simp⟩

theorem itemNames_iff {t : List Char} {day : Nat} (hi : item? t = some i)
    (hvalid : i.isValid = true) (hday : day < 7)
    (htext : ∀ v, i = .verbatim v → ∃ p, ProgressionText .weekday v p) :
    ItemNames t day ↔ i.selects day = true ∨
      ∃ v, i = .verbatim v ∧ ∃ p, ProgressionText .weekday v p ∧ p.mem (day + 1) = true := by
  cases i with
  | days a b step =>
    rw [selects_iff hvalid]
    simp only [reduceCtorEq, false_and, exists_false, or_false]
    constructor
    · rintro ⟨a', b', step', hitem, hk⟩
      rcases item?_of_text hitem hi with heq | ⟨heq, -⟩
      · cases heq
        exact hk
      · cases heq
    · exact fun hk => ⟨a, b, step, text_of_days hi, hk⟩
  | verbatim v =>
    obtain rfl := eq_of_item?_verbatim hi
    obtain ⟨p, hp⟩ := htext v rfl
    obtain ⟨a, b, hpab, hitem⟩ := text_of_verbatim hi hp
    -- Only numbers go beyond Saturday, and those are not left to the reader of schedules.
    have hlast : b ≤ 6 := by
      have := hp.bounds.2
      rw [hpab] at this
      exact Nat.le_of_succ_le_succ this
    constructor
    · rintro ⟨a', b', step, hitem', k, hle, hmod⟩
      rcases item?_of_text hitem' hi with heq | ⟨-, hprogression⟩
      · cases heq
      · obtain rfl := hprogression p hp
        cases hpab
        refine .inr ⟨v, rfl, _, hp, mem_succ_iff.mpr ⟨k, hle, ?_⟩⟩
        rwa [Nat.mod_eq_of_lt (by omega)] at hmod
    · rintro (hselects | ⟨_, ⟨rfl⟩, q, hq, hmem⟩)
      · cases hselects
      · obtain rfl := hp.unique hq
        rw [hpab, mem_succ_iff] at hmem
        obtain ⟨k, hle, rfl⟩ := hmem
        exact ⟨a, b, p.step, hitem, k, hle, Nat.mod_eq_of_lt (by omega)⟩

/-! ## Fields -/

/-- The names of the days that are selected. -/
def dayTexts (items : List DayItem) : List (List Char) :=
  (dayNames.zipIdx.filter fun x => items.any (·.selects x.2)).map (·.1.toList)

/-- The items that are left to the reader of schedules. -/
def verbatimTexts (items : List DayItem) : List (List Char) :=
  items.filterMap fun
    | .verbatim text => some text
    | _ => none

theorem of_weekdays? {field wd : List Char} (hne : ¬ (field = ['*'] ∨ field = ['?']))
    (h : weekdays? field = some wd) :
    ∃ items, List.Forall₂ (fun t i => item? t = some i) (Text.splitOn ',' field) items ∧
      (∀ i ∈ items, i.isValid = true) ∧
      wd = [','].intercalate (dayTexts items ++ verbatimTexts items) := by
  unfold weekdays? at h
  rw [if_neg hne] at h
  simp only [Option.bind_eq_bind, Option.bind_eq_some_iff] at h
  obtain ⟨items, hitems, h⟩ := h
  split at h
  · cases h
  · rename_i hvalid
    simp only [Bool.not_eq_true', Bool.not_eq_false, List.all_eq_true] at hvalid
    refine ⟨items, mapM_eq_some_iff.mp hitems, hvalid, ?_⟩
    have htexts : (items.filterMap DayItem.verbatim?).map String.toList = verbatimTexts items := by
      rw [List.map_filterMap]
      unfold verbatimTexts
      congr 1
      funext i
      cases i <;> simp [DayItem.verbatim?]
    simp only [Option.pure_def, Option.some.injEq] at h
    rw [← h, String.toList_intercalate, List.map_append, List.map_map, htexts]
    rfl

theorem weekdays?_cases {field wd : List Char} (h : weekdays? field = some wd) :
    (field = ['*'] ∨ field = ['?']) ∧ wd = field ∨
    ∃ items, List.Forall₂ (fun t i => item? t = some i) (Text.splitOn ',' field) items ∧
      (∀ i ∈ items, i.isValid = true) ∧
      wd = [','].intercalate (dayTexts items ++ verbatimTexts items) := by
  by_cases hany : field = ['*'] ∨ field = ['?']
  · unfold weekdays? at h
    rw [if_pos hany] at h
    exact .inl ⟨hany, (Option.some.inj h).symm⟩
  · exact .inr (of_weekdays? hany h)

theorem mem_dayTexts_iff {items : List DayItem} {t : List Char} :
    t ∈ dayTexts items ↔ ∃ name day, (name, day) ∈ dayNames.zipIdx ∧
      (∃ i ∈ items, i.selects day = true) ∧ name.toList = t := by
  unfold dayTexts
  simp [List.any_eq_true, and_assoc]

theorem mem_verbatimTexts_iff {items : List DayItem} {t : List Char} :
    t ∈ verbatimTexts items ↔ .verbatim t ∈ items := by
  unfold verbatimTexts
  rw [List.mem_filterMap]
  constructor
  · rintro ⟨i, hi, heq⟩
    cases i with
    | days => cases heq
    | verbatim text =>
      cases heq
      exact hi
  · exact fun h => ⟨_, h, rfl⟩

theorem progressionText_of_dayName {name : String} {day : Nat} (h : (name, day) ∈ dayNames.zipIdx) :
    ProgressionText .weekday name.toList ⟨day + 1, day + 1, 1⟩ := by
  have hnames : ∀ x ∈ dayNames.zipIdx,
      Component.weekday.named? x.1.toList = some (x.2 + 1) := by decide
  have hday := hnames _ h
  exact ⟨.named name.toList, .named (nameText_of_named? hday),
    progression?_named.mpr ⟨_, hday, rfl⟩⟩

theorem exists_dayText_iff {items : List DayItem} {day : Nat} (hday : day < 7) :
    (∃ t ∈ dayTexts items, ∃ p, ProgressionText .weekday t p ∧ p.mem (day + 1) = true) ↔
      ∃ i ∈ items, i.selects day = true := by
  constructor
  · rintro ⟨t, ht, p, hp, hmem⟩
    obtain ⟨name, n, hname, hselects, rfl⟩ := mem_dayTexts_iff.mp ht
    obtain rfl := hp.unique (progressionText_of_dayName hname)
    obtain ⟨k, hle, hk⟩ := mem_succ_iff.mp hmem
    obtain rfl : n = day := by omega
    exact hselects
  · intro hselects
    have hnames : ∀ d < 7, ∃ x ∈ dayNames.zipIdx, x.2 = d := by decide
    obtain ⟨⟨name, _⟩, hname, rfl⟩ := hnames day hday
    exact ⟨_, mem_dayTexts_iff.mpr ⟨name, _, hname, hselects, rfl⟩, _,
      progressionText_of_dayName hname, mem_succ_iff.mpr ⟨0, by omega, by omega⟩⟩

theorem item_of_mem {texts : List (List Char)} {items : List DayItem}
    (h : List.Forall₂ (fun t i => item? t = some i) texts items) (hi : i ∈ items) :
    ∃ t ∈ texts, item? t = some i := by
  have hunique : Relator.RightUnique fun t (i : DayItem) => item? t = some i :=
    fun _ _ _ h h' => Option.some.inj (h.symm.trans h')
  obtain ⟨t, ht, _, hit, rfl⟩ := (exists_mem_iff_of_forall₂ hunique h (· = i)).mp ⟨i, hi, rfl⟩
  exact ⟨t, ht, hit⟩

theorem noComma_and_noGap_of_part {field : List Char} {items : List DayItem} (hfield : NoGap field)
    (hitems : List.Forall₂ (fun t i => item? t = some i) (Text.splitOn ',' field) items) :
    ∀ t ∈ dayTexts items ++ verbatimTexts items, ',' ∉ t ∧ NoGap t := by
  intro t ht
  rcases List.mem_append.mp ht with ht | ht
  · obtain ⟨name, day, hname, -, rfl⟩ := mem_dayTexts_iff.mp ht
    obtain ⟨i, hi, -⟩ := progressionText_of_dayName hname
    exact ⟨hi.noComma, hi.noGap⟩
  · obtain ⟨t', ht', hi⟩ := item_of_mem hitems (mem_verbatimTexts_iff.mp ht)
    obtain rfl := eq_of_item?_verbatim hi
    exact ⟨Text.not_mem_of_mem_splitOn ht',
      fun ch hch => hfield ch (Text.mem_of_mem_splitOn ht' hch)⟩

theorem splitOn_weekdays {field : List Char} {items : List DayItem} {f : Field}
    (hfield : NoGap field)
    (hitems : List.Forall₂ (fun t i => item? t = some i) (Text.splitOn ',' field) items)
    (hf : fieldOf? .weekday ([','].intercalate (dayTexts items ++ verbatimTexts items)) = some f) :
    Text.splitOn ',' ([','].intercalate (dayTexts items ++ verbatimTexts items)) =
      dayTexts items ++ verbatimTexts items := by
  have hne : dayTexts items ++ verbatimTexts items ≠ [] := by
    intro hnil
    rw [hnil] at hf
    cases hf
  have hparts := noComma_and_noGap_of_part hfield hitems
  obtain ⟨t, ts, htexts⟩ := List.exists_cons_of_ne_nil hne
  rw [htexts] at hparts ⊢
  rw [← Text.joined_eq, Text.splitOn_joined fun q hq => (hparts q hq).1]

theorem noGap_of_weekdays? {field wd : List Char} (hfield : NoGap field)
    (hwd : weekdays? field = some wd) : NoGap wd := by
  rcases weekdays?_cases hwd with ⟨-, rfl⟩ | ⟨items, hitems, -, rfl⟩
  · exact hfield
  · have hparts := noComma_and_noGap_of_part hfield hitems
    cases htexts : dayTexts items ++ verbatimTexts items with
    | nil => exact List.forall_mem_nil _
    | cons t ts =>
      intro ch hch
      rw [← Text.joined_eq] at hch
      rcases Text.mem_joined hch with rfl | ⟨q, hq, hch⟩
      · rfl
      · exact (hparts q (htexts ▸ hq)).2 ch hch

theorem eq_nil_or_of_intercalate {mark : Char} {texts : List (List Char)}
    (h : [mark].intercalate texts = []) : texts = [] ∨ texts = [[]] := by
  cases texts with
  | nil => exact .inl rfl
  | cons t ts =>
    rw [← Text.joined_eq] at h
    unfold Text.joined at h
    obtain ⟨rfl, hts⟩ := List.append_eq_nil_iff.mp h
    cases ts with
    | nil => exact .inr rfl
    | cons u us => cases hts

theorem exists_dayText_of_isValid {items : List DayItem} (hi : .days a b step ∈ items)
    (hvalid : (DayItem.days a b step).isValid = true) : ∃ t ∈ dayTexts items, t ≠ [] := by
  obtain ⟨-, -, -, hrange⟩ := isValid_days_iff.mp hvalid
  have hselects : (DayItem.days a b step).selects (a % 7) = true :=
    (selects_iff hvalid).mpr ⟨0, by omega, by omega⟩
  obtain ⟨t, ht, p, ⟨i, htext, -⟩, -⟩ :=
    (exists_dayText_iff (Nat.mod_lt a (by decide))).mpr ⟨_, hi, hselects⟩
  exact ⟨t, ht, htext.ne_nil⟩

theorem weekdays?_ne_nil {field wd : List Char} (hfield : field ≠ [])
    (hwd : weekdays? field = some wd) : wd ≠ [] := by
  rcases weekdays?_cases hwd with ⟨-, rfl⟩ | ⟨items, hitems, hvalid, rfl⟩
  · exact hfield
  · intro hnil
    have hempty : ∀ t ∈ dayTexts items ++ verbatimTexts items, t = [] := by
      rcases eq_nil_or_of_intercalate hnil with htexts | htexts <;> simp [htexts]
    have hverbatim : ∀ i ∈ items, i = .verbatim [] := by
      intro i hi
      cases i with
      | days a b step =>
        obtain ⟨t, ht, hne⟩ := exists_dayText_of_isValid hi (hvalid _ hi)
        exact absurd (hempty t (List.mem_append_left _ ht)) hne
      | verbatim t =>
        rw [hempty t (List.mem_append_right _ (mem_verbatimTexts_iff.mpr hi))]
    -- So every part of the field is empty, and there is at most one of them.
    have hlength : (Text.splitOn ',' field).length ≤ 1 := by
      have hkept : (verbatimTexts items).length = items.length := by
        unfold verbatimTexts
        refine List.filterMap_length_eq_length.mpr fun i hi => ?_
        rw [hverbatim i hi]
        rfl
      have hle : (verbatimTexts items).length ≤ 1 := by
        refine Nat.le_trans (List.length_append ▸ Nat.le_add_left _ (dayTexts items).length) ?_
        rcases eq_nil_or_of_intercalate hnil with htexts | htexts <;> simp [htexts]
      rw [hitems.length_eq, ← hkept]
      exact hle
    cases hsplit : Text.splitOn ',' field with
    | nil => exact Text.splitOn_ne_nil hsplit
    | cons t ts =>
      rw [hsplit, List.length_cons] at hlength
      obtain rfl : ts = [] := List.eq_nil_of_length_eq_zero (by omega)
      obtain ⟨i, hi, hread⟩ := exists_of_mem_of_forall₂ hitems (hsplit ▸ List.mem_singleton_self t)
      obtain rfl := eq_of_item?_verbatim (hverbatim i hi ▸ hread)
      exact hfield (Text.joined_of_splitOn hsplit).symm

theorem mem_weekdays_of_any {field : List Char} {f : Field}
    (hany : field = ['*'] ∨ field = ['?']) (hf : fieldOf? .weekday field = some f) {day : Nat}
    (hday : day < 7) : f.mem (day + 1) = true ∧ Names field day := by
  have hevery : ∃ k, 0 + k * 1 ≤ 6 ∧ (0 + k * 1) % 7 = day := ⟨day, by omega, by omega⟩
  have hf' : f = [⟨1, 7, 1⟩] := by rcases hany with rfl | rfl <;> exact (Option.some.inj hf).symm
  constructor
  · rw [hf']
    exact Bool.or_eq_true_iff.mpr (.inl (mem_succ_iff.mpr ⟨day, by omega, by omega⟩))
  · rcases hany with rfl | rfl
    · exact ⟨['*'], List.mem_singleton_self _, 0, 6, 1, .range .star, hevery⟩
    · exact ⟨['?'], List.mem_singleton_self _, 0, 6, 1, .range .mark, hevery⟩

theorem exists_part_iff {items : List DayItem} {day : Nat} (hday : day < 7) :
    (∃ t ∈ dayTexts items ++ verbatimTexts items,
        ∃ p, ProgressionText .weekday t p ∧ p.mem (day + 1) = true) ↔
      ∃ i ∈ items, i.selects day = true ∨
        ∃ v, i = .verbatim v ∧ ∃ p, ProgressionText .weekday v p ∧ p.mem (day + 1) = true := by
  constructor
  · rintro ⟨t, ht, hp⟩
    rcases List.mem_append.mp ht with ht | ht
    · obtain ⟨i, hi, hselects⟩ := (exists_dayText_iff hday).mp ⟨t, ht, hp⟩
      exact ⟨i, hi, .inl hselects⟩
    · exact ⟨_, mem_verbatimTexts_iff.mp ht, .inr ⟨t, rfl, hp⟩⟩
  · rintro ⟨i, hi, hselects | ⟨v, rfl, hp⟩⟩
    · obtain ⟨t, ht, hp⟩ := (exists_dayText_iff hday).mpr ⟨i, hi, hselects⟩
      exact ⟨t, List.mem_append_left _ ht, hp⟩
    · exact ⟨v, List.mem_append_right _ (mem_verbatimTexts_iff.mpr hi), hp⟩

/-- The days of the schedule are those that the field names. -/
theorem mem_weekdays_iff {field wd : List Char} {f : Field} (hfield : NoGap field)
    (hwd : weekdays? field = some wd) (hf : fieldOf? .weekday wd = some f) {day : Nat}
    (hday : day < 7) : f.mem (day + 1) = true ↔ Names field day := by
  rcases weekdays?_cases hwd with ⟨hany, rfl⟩ | ⟨items, hitems, hvalid, rfl⟩
  · obtain ⟨hmem, hnames⟩ := mem_weekdays_of_any hany hf hday
    exact iff_of_true hmem hnames
  · have hgap : NoGap ([','].intercalate (dayTexts items ++ verbatimTexts items)) :=
      noGap_of_weekdays? hfield hwd
    have htexts := (fieldOf?_eq_some_iff hgap).mp hf
    rw [splitOn_weekdays hfield hitems hf] at htexts
    have htext : ∀ i ∈ items, ∀ v, i = .verbatim v → ∃ p, ProgressionText .weekday v p := by
      rintro i hi v rfl
      obtain ⟨p, -, hp⟩ := exists_of_mem_of_forall₂ htexts
        (List.mem_append_right _ (mem_verbatimTexts_iff.mpr hi))
      exact ⟨p, hp⟩
    rw [mem_iff_of_texts htexts, exists_part_iff hday]
    constructor
    · rintro ⟨i, hi, hnames⟩
      obtain ⟨text, ht, hit⟩ := item_of_mem hitems hi
      exact ⟨text, ht, (itemNames_iff hit (hvalid i hi) hday (htext i hi)).mpr hnames⟩
    · rintro ⟨text, ht, hnames⟩
      obtain ⟨i, hi, hit⟩ := exists_of_mem_of_forall₂ hitems ht
      exact ⟨i, hi, (itemNames_iff hit (hvalid i hi) hday (htext i hi)).mp hnames⟩

end Cadence.Schedule.Crontab
