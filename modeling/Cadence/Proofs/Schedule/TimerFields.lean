import Cadence.Proofs.Schedule.TimerWords

/-!
# Fields of the timer

A field of a schedule is often a field of the timer too, and not always. A star may stand among
other items for the schedule only, and names of the timer have three letters.
-/

namespace Cadence.Schedule

/-! ## What both grammars have -/

/-- The specifier is one of the timer's, too. -/
def Specifier.IsCommon : Specifier → Prop
  | .namedRange first last => first.length = 3 ∧ last.length = 3
  | _ => True

/-- The item is one of the timer's, too. -/
def Item.IsCommon : Item → Prop
  | .plain .all => False
  | .plain s => s.IsCommon
  | .stepped s _ => s.IsCommon
  | .named name => name.length = 3

/-- A list that both grammars have: a star alone, or items without it. -/
def CommonItems (items : List Item) : Prop := items = [.plain .all] ∨ ∀ i ∈ items, i.IsCommon

/-- The whole text is a list of the component, and the timer has this list as well. -/
def CommonField (c : Component) (cs : List Char) : Prop :=
  ∃ items, readList c cs = some (items, []) ∧ CommonItems items

variable {c : Component} {cs ds a b : List Char} {ch d : Char} {n : Nat}

theorem NumberText.noMark (h : NumberText cs n) (hd : d.isDigit = false) : d ∉ cs := by
  intro hmem
  rw [h.isDigit.2 d hmem] at hd
  cases hd

namespace Timer

/-- The rule of the timer for a component. -/
def ruleFor : Component → FieldRule
  | .second | .minute => { low := 0, high := 59 }
  | .hour => { low := 0, high := 23 }
  | .dayOfMonth => { low := 1, high := 31, any := true, last := true, workday := true }
  | .month => { low := 1, high := 12 }
  | .weekday => { low := 0, high := 7, any := true, last := true, nth := true }
  | .year => { low := 1, high := 9999 }

theorem rules_eq : rules = (components ++ [Component.year]).map ruleFor := rfl

/-- The characters that the timer reads as a field: numbers for names, and a star for a question
mark where that is allowed. -/
def spelled (c : Component) (cs : List Char) : List Char :=
  if c.allowsAny then (inNumbers cs).map fun ch => if ch = '?' then '*' else ch else inNumbers cs

theorem spelled_append (hd : IsPlain d) (hmark : d ≠ '?') (a b : List Char) :
    spelled c (a ++ d :: b) = spelled c a ++ d :: spelled c b := by
  unfold spelled
  rw [inNumbers_append hd]
  split
  · rw [List.map_append, List.map_cons, if_neg hmark]
  · rfl

theorem spelled_of_plain (h : ∀ ch ∈ cs, IsPlain ch ∧ ch ≠ '?') : spelled c cs = cs := by
  induction cs with
  | nil =>
    unfold spelled
    split <;> rfl
  | cons ch cs ih =>
    rw [List.forall_mem_cons] at h
    have hfront := spelled_append (c := c) h.1.1 h.1.2 [] cs
    have hnil : spelled c [] = [] := by
      unfold spelled
      split <;> rfl
    rwa [ih h.2, hnil] at hfront

theorem eq_of_upperChar (h : (Text.upperChar ch).isAlphanum = false) : Text.upperChar ch = ch := by
  unfold Text.upperChar at h ⊢
  split at h
  · cases h
  split at h
  · cases h
  · rename_i hi hs
    rw [if_neg hi, if_neg hs]
    cases halpha : ch.isAlpha with
    | true =>
      unfold Char.isAlphanum Char.isAlpha at h
      simp [Text.isUpper_toUpper halpha] at h
    | false => exact Text.toUpper_of_not_isAlpha halpha

theorem not_mem_spelled (hd : d.isAlphanum = false) (hstar : d ≠ '*') (hcs : d ∉ cs) :
    d ∉ spelled c cs := by
  have hnumbers : d ∉ inNumbers cs := by
    intro hmem
    rcases mem_inNumbers hmem with ⟨e, he, rfl⟩ | hdigit
    · rw [eq_of_upperChar hd] at hcs
      exact hcs he
    · rw [Text.isAlphanum_of_isDigit hdigit] at hd
      cases hd
  unfold spelled
  split
  · intro hmem
    obtain ⟨e, he, heq⟩ := List.mem_map.mp hmem
    split at heq
    · exact hstar heq.symm
    · exact hnumbers (heq ▸ he)
  · exact hnumbers

theorem isPlain_mark : ∀ d ∈ ['*', '-', '/', ','], IsPlain d ∧ d ≠ '?' := by
  have hall : ∀ d ∈ ['*', '-', '/', ','],
      d.isAlpha = false ∧ (d ≠ '\u0131' ∧ d ≠ '\u017f') ∧ d ≠ '?' :=
    Text.forall_mem_of_all (by decide)
  intro d hd
  obtain ⟨halpha, hch, hmark⟩ := hall d hd
  exact ⟨.of_not_isAlpha halpha hch, hmark⟩

theorem spelled_mark (hd : d ∈ ['*', '-', '/', ',']) (a b : List Char) :
    spelled c (a ++ d :: b) = spelled c a ++ d :: spelled c b :=
  spelled_append (isPlain_mark d hd).1 (isPlain_mark d hd).2 a b

/-! ## Numbers -/

theorem spelled_number (h : NumberText cs n) : spelled c cs = cs := by
  apply spelled_of_plain
  intro ch hch
  have hdigit := h.isDigit.2 ch hch
  refine ⟨.of_isDigit hdigit, ?_⟩
  rintro rfl
  cases hdigit

theorem unsigned?_of_text (h : NumberText cs n) (bound : Nat) :
    Text.unsigned? bound cs = if n ≤ bound then some n else none := by
  unfold Text.unsigned?
  split
  · -- There is no sign in front.
    have := h.isDigit.2 '+' List.mem_cons_self
    cases this
  · simp only [h.1, Option.filter_some, decide_eq_true_eq]

theorem number?_of_text (h : NumberText cs n) (hlow : c.low ≤ n) (hhigh : n ≤ c.high) :
    number? (ruleFor c) cs = some n := by
  have hrule : (ruleFor c).low ≤ c.low ∧ c.high ≤ (ruleFor c).high := by cases c <;> decide
  unfold number?
  rw [unsigned?_of_text h, if_pos (by omega), Option.filter_some, if_pos]
  rw [decide_eq_true_eq]
  omega

theorem number?_eq_none (r : FieldRule) (hch : ch ∈ cs) (hdigit : ch.isDigit = false)
    (hplus : ch ≠ '+') : number? r cs = none := by
  have hnone {ds : List Char} (hds : ch ∈ ds) : Text.natOf? ds = none := by
    rw [Option.eq_none_iff_forall_ne_some]
    intro n hn
    have := (Text.digits_of_natOf? hn).2 ch hds
    rw [hdigit] at this
    cases this
  unfold number? Text.unsigned?
  split
  · rename_i rest
    simp [hnone ((List.mem_cons.mp hch).resolve_left hplus)]
  · simp [hnone hch]

/-! ## Names -/

/-- What becomes of a name: a number if it has three letters, and nothing else. -/
structure SpelledName (c : Component) (cs : List Char) (isShort : Bool) (n : Nat) : Prop where
  number : number? (ruleFor c) cs = if isShort then some n else none
  item : isItem (ruleFor c) cs = isShort
  marks : '-' ∉ cs ∧ '/' ∉ cs
  star : cs ≠ ['*']

/-- The number of a named one: days of the week count from 0. -/
def numberFor (c : Component) (n : Nat) : Nat := if c = .weekday then n - 1 else n

theorem upperChar_toLower (h : ch.isAlpha = true) : Text.upperChar ch.toLower = Text.upperChar ch :=
  Text.forall_ascii (fun ch => Text.upperChar ch.toLower = Text.upperChar ch) (by decide)
    (Text.toNat_of_isAlpha h)

theorem spelled_lower (h : NameText cs) : spelled c (cs.map Char.toLower) = spelled c cs := by
  have hupper : (cs.map Char.toLower).map Text.upperChar = cs.map Text.upperChar := by
    rw [List.map_map]
    exact List.map_congr_left fun ch hch => upperChar_toLower (h.2 ch hch)
  unfold spelled inNumbers
  rw [hupper]

theorem spelled_name (hname : NameText cs) (h : c.named? cs = some n) :
    SpelledName c (spelled c cs) (decide (cs.length = 3)) (numberFor c n) := by
  have hall : ∀ x ∈ c.names,
      number? (ruleFor c) (spelled c x.1.toList) =
          (if decide (x.1.toList.length = 3) then some (numberFor c x.2) else none) ∧
        isItem (ruleFor c) (spelled c x.1.toList) = decide (x.1.toList.length = 3) ∧
        ('-' ∉ spelled c x.1.toList ∧ '/' ∉ spelled c x.1.toList) ∧
        spelled c x.1.toList ≠ ['*'] := by
    cases c <;> decide +kernel
  obtain ⟨hnumber, hitem, hmarks, hstar⟩ := hall _ (mem_names_of_named? h)
  simp only [String.toList_ofList, spelled_lower hname, List.length_map]
    at hnumber hitem hmarks hstar
  exact ⟨hnumber, hitem, hmarks, hstar⟩

/-! ## Items -/

theorem isRange_dash (r : FieldRule) (ha : '-' ∉ a) (hb : '-' ∉ b) :
    isRange r (a ++ '-' :: b) = true ↔
      ∃ m n, number? r a = some m ∧ number? r b = some n ∧ m ≤ n := by
  have hsplit : Text.splitOn '-' (a ++ '-' :: b) = [a, b] := by
    have hjoined : Text.splitOn '-' (Text.joined '-' a [b]) = [a, b] :=
      Text.splitOn_joined (by simp [ha, hb])
    simpa [Text.joined] using hjoined
  unfold isRange
  cases hm : number? r a <;> cases hn : number? r b <;> simp [hsplit, hm, hn]

theorem isItem_number (h : NumberText cs n) (hlow : c.low ≤ n) (hhigh : n ≤ c.high) :
    isItem (ruleFor c) cs = true := by
  have hnumber := number?_of_text h hlow hhigh
  have hlast {ch : Char} (hch : ch.isDigit = false) : cs.getLast? ≠ some ch :=
    fun heq => h.noMark hch (List.mem_of_getLast? heq)
  have hword : cs ≠ ['L'] := by
    rintro rfl
    exact h.noMark rfl List.mem_cons_self
  unfold isItem isNumber
  rw [if_neg (by simpa using h.noMark rfl), if_neg (by simpa using h.noMark rfl),
    if_neg (hlast rfl), if_neg hword, Text.cut_of_not_mem (h.noMark rfl)]
  simp [hlast, hnumber]

/-- What becomes of a specifier: a star, a number, or a range of numbers. -/
inductive SpelledSpecifier (c : Component) : Specifier → List Char → Prop
  | all : SpelledSpecifier c .all ['*']
  | point {ds : List Char} {n : Nat} (h : NumberText ds n) (hlow : c.low ≤ n) (hhigh : n ≤ c.high) :
      SpelledSpecifier c (.point n) ds
  | range {s : Specifier} {cs : List Char} (hne : s ≠ .all) (hdash : '-' ∈ cs) (hslash : '/' ∉ cs)
      (hrange : isRange (ruleFor c) cs = true ↔ s.IsCommon) : SpelledSpecifier c s cs

theorem spelled_specifier {s : Specifier} {o : Bool} {first last : Nat} (h : SpecifierText c cs s)
    (hs : s.bounds? c o = some (first, last)) : SpelledSpecifier c s (spelled c cs) := by
  cases h with
  | star =>
    rw [spelled_of_plain fun ch hch => isPlain_mark ch (by simp_all)]
    exact .all
  | mark hany =>
    have hstar : spelled c ['?'] = ['*'] := by
      unfold spelled
      rw [if_pos hany]
      rfl
    rw [hstar]
    exact .all
  | point hn =>
    obtain ⟨-, hlow, hle, hhigh⟩ := range?_eq_some_iff.mp hs
    rw [spelled_number hn]
    exact .point hn hlow (hle.trans hhigh)
  | @range as bs m n hm hn =>
    obtain ⟨-, hlow, hle, hhigh⟩ := range?_eq_some_iff.mp hs
    rw [spelled_mark (by simp), spelled_number hm, spelled_number hn]
    refine .range (by simp) (by simp) ?_ ?_
    · simp [hm.noMark, hn.noMark]
    · rw [isRange_dash _ (hm.noMark rfl) (hn.noMark rfl)]
      have hfirst := number?_of_text hm hlow (hle.trans hhigh)
      have hlast := number?_of_text hn (hlow.trans hle) hhigh
      simp [hfirst, hlast, hle, Specifier.IsCommon]
  | @names as bs ha hb =>
    simp only [Specifier.bounds?, Option.bind_eq_bind, Option.bind_eq_some_iff] at hs
    obtain ⟨m, hm, n, hn, hs⟩ := hs
    obtain ⟨-, hlow, hle, hhigh⟩ := range?_eq_some_iff.mp hs
    have hA := spelled_name ha hm
    have hB := spelled_name hb hn
    rw [spelled_mark (by simp)]
    refine .range (by simp) (by simp) ?_ ?_
    · simp [hA.marks.2, hB.marks.2]
    · have hmono : numberFor c m ≤ numberFor c n := by
        unfold numberFor
        split <;> omega
      rw [isRange_dash _ hA.marks.1 hB.marks.1, hA.number, hB.number]
      simp only [Specifier.IsCommon, decide_eq_true_eq]
      by_cases has : as.length = 3 <;> by_cases hbs : bs.length = 3 <;> simp [has, hbs, hmono]

theorem isStepped_iff {s : Specifier} {step : Nat} (hs : SpelledSpecifier c s cs)
    (hstep : NumberText ds step) (hpos : 0 < step) (hle : step ≤ c.high) :
    isItem (ruleFor c) (cs ++ '/' :: ds) = true ↔ s.IsCommon := by
  have hslash : '/' ∉ cs := by
    cases hs with
    | all => decide
    | point hn => exact hn.noMark rfl
    | range _ _ hslash => exact hslash
  have hsplit : Text.splitOn '/' (cs ++ '/' :: ds) = [cs, ds] := by
    have hjoined : Text.splitOn '/' (Text.joined '/' cs [ds]) = [cs, ds] :=
      Text.splitOn_joined (by simp [hslash, hstep.noMark])
    simpa [Text.joined] using hjoined
  have hbase : (cs = ['*'] || isRange (ruleFor c) cs || (number? (ruleFor c) cs).isSome) = true ↔
      s.IsCommon := by
    cases hs with
    | all => simp [Specifier.IsCommon]
    | point hn hlow hhigh => simp [number?_of_text hn hlow hhigh, Specifier.IsCommon]
    | range hne hdash hslash hrange =>
      have hnumber := number?_eq_none (ruleFor c) hdash rfl (by decide)
      have hstar : cs ≠ ['*'] := by
        rintro rfl
        simp at hdash
      simp [hnumber, hstar, hrange]
  have hsteps : (Text.unsigned? Text.u16Max ds).any (0 < ·) = true := by
    have hhigh : c.high ≤ Text.u16Max := by cases c <;> decide
    rw [unsigned?_of_text hstep, if_pos (hle.trans hhigh)]
    simpa using hpos
  unfold isItem isStepped
  rw [if_pos (by simp), hsplit]
  simp only [Bool.and_eq_true, hbase, hsteps, and_true]

theorem isPlain_iff {s : Specifier} (hs : SpelledSpecifier c s cs) :
    isItem (ruleFor c) cs = true ↔ (Item.plain s).IsCommon := by
  cases hs with
  | all =>
    have hnone : isItem (ruleFor c) ['*'] = false := by cases c <;> decide
    simp [hnone, Item.IsCommon]
  | point hn hlow hhigh => simp [isItem_number hn hlow hhigh, Item.IsCommon, Specifier.IsCommon]
  | range hne hdash hslash hrange =>
    have hcommon : (Item.plain s).IsCommon ↔ s.IsCommon := by
      cases s with
      | all => exact absurd rfl hne
      | _ => rfl
    unfold isItem
    rw [if_neg (by simpa using hslash), if_pos (by simpa using hdash), hrange, hcommon]

theorem isItem_iff {t : List Char} {i : Item} {p : Progression} (h : ItemText c t i)
    (hp : i.progression? c = some p) : isItem (ruleFor c) (spelled c t) = true ↔ i.IsCommon := by
  cases h with
  | plain h =>
    obtain ⟨first, last, hs, -⟩ := progression?_plain.mp hp
    exact isPlain_iff (spelled_specifier h hs)
  | @stepped cs ds s n h hstep =>
    obtain ⟨⟨hpos, hle⟩, first, last, hs, -⟩ := progression?_stepped.mp hp
    rw [spelled_mark (by simp), spelled_number hstep]
    exact isStepped_iff (spelled_specifier h hs) hstep hpos hle
  | named h =>
    obtain ⟨n, hn, -⟩ := progression?_named.mp hp
    rw [(spelled_name h hn).item, decide_eq_true_eq]
    rfl

theorem spelled_eq_star_iff {t : List Char} {i : Item} {p : Progression} (h : ItemText c t i)
    (hp : i.progression? c = some p) : spelled c t = ['*'] ↔ i = .plain .all := by
  cases h with
  | plain h =>
    obtain ⟨first, last, hs, -⟩ := progression?_plain.mp hp
    have hspelled := spelled_specifier h hs
    generalize spelled c t = out at hspelled
    cases hspelled with
    | all => simp
    | point hn =>
      have hstar : out ≠ ['*'] := fun heq => hn.noMark rfl (heq ▸ List.mem_cons_self)
      simp [hstar]
    | range hne hdash =>
      have hstar : out ≠ ['*'] := by
        rintro rfl
        simp at hdash
      simp [hstar, hne]
  | @stepped front back s n h hstep =>
    have hstar : spelled c (front ++ '/' :: back) ≠ ['*'] := by
      intro heq
      have hslash : '/' ∈ spelled c (front ++ '/' :: back) := by simp [spelled_mark]
      rw [heq] at hslash
      simp at hslash
    simp [hstar]
  | named h =>
    obtain ⟨n, hn, -⟩ := progression?_named.mp hp
    simp [(spelled_name h hn).star]

/-! ## Fields -/

theorem splitOn_spelled (cs : List Char) :
    Text.splitOn ',' (spelled c cs) = (Text.splitOn ',' cs).map (spelled c) := by
  have hjoined (t : List Char) (ts : List (List Char)) :
      spelled c (Text.joined ',' t ts) = Text.joined ',' (spelled c t) (ts.map (spelled c)) := by
    induction ts generalizing t with
    | nil => simp [Text.joined]
    | cons u us ih =>
      have hfirst (t u : List Char) (us : List (List Char)) :
          Text.joined ',' t (u :: us) = t ++ ',' :: Text.joined ',' u us := by simp [Text.joined]
      rw [hfirst, spelled_mark (by simp), ih, List.map_cons, hfirst]
  have hcomma : ∀ t ∈ Text.splitOn ',' cs, ',' ∉ spelled c t := fun t ht =>
    not_mem_spelled rfl (by decide) (Text.not_mem_of_mem_splitOn ht)
  cases hsplit : Text.splitOn ',' cs with
  | nil => exact absurd hsplit Text.splitOn_ne_nil
  | cons t ts =>
    rw [hsplit] at hcomma
    rw [← Text.joined_of_splitOn hsplit, hjoined, List.map_cons, Text.splitOn_joined]
    simpa using hcomma

theorem spelled_ne_nil (h : cs ≠ []) : spelled c cs ≠ [] := by
  unfold spelled
  split
  · simpa using inNumbers_ne_nil h
  · exact inNumbers_ne_nil h

theorem isField_eq (c : Component) (cs : List Char) :
    isField (ruleFor c) (inNumbers cs) =
      (decide (spelled c cs = ['*']) ||
        (Text.splitOn ',' (spelled c cs)).all fun t => t.isEmpty || isItem (ruleFor c) t) := by
  cases c <;> rfl

/-- The text of an item with a meaning. -/
def MeaningText (c : Component) (t : List Char) (i : Item) : Prop :=
  ItemText c t i ∧ ∃ p, i.progression? c = some p

theorem meanings_of_texts {texts : List (List Char)} {items : List Item} {f : Field}
    (htexts : List.Forall₂ (ItemText c) texts items)
    (hitems : items.mapM (Item.progression? c) = some f) :
    List.Forall₂ (MeaningText c) texts items := by
  rw [mapM_eq_some_iff] at hitems
  induction htexts generalizing f with
  | nil => exact .nil
  | cons hi _ ih =>
    cases hitems with
    | cons hp hrest => exact .cons ⟨hi, _, hp⟩ (ih hrest)

theorem all_isItem_iff {texts : List (List Char)} {items : List Item}
    (h : List.Forall₂ (MeaningText c) texts items) :
    ((texts.map (spelled c)).all fun t => t.isEmpty || isItem (ruleFor c) t) = true ↔
      ∀ i ∈ items, i.IsCommon := by
  induction h with
  | nil => simp
  | @cons t i ts is hi _ ih =>
    obtain ⟨htext, p, hp⟩ := hi
    rw [List.map_cons, List.all_cons, Bool.and_eq_true, ih, List.forall_mem_cons,
      List.isEmpty_eq_false_iff.mpr (spelled_ne_nil htext.ne_nil), Bool.false_or,
      isItem_iff htext hp]

theorem spelled_star_iff {items : List Item}
    (h : List.Forall₂ (MeaningText c) (Text.splitOn ',' cs) items) :
    spelled c cs = ['*'] ↔ items = [.plain .all] := by
  have hstar {t : List Char} {i : Item} (hi : MeaningText c t i) :
      spelled c t = ['*'] ↔ i = .plain .all := by
    obtain ⟨htext, p, hp⟩ := hi
    exact spelled_eq_star_iff htext hp
  constructor
  · intro heq
    have hparts := splitOn_spelled (c := c) cs
    rw [heq] at hparts
    generalize Text.splitOn ',' cs = texts at h hparts
    cases h with
    | nil => cases hparts
    | @cons t i ts is hi hrest =>
      have hone : [['*']] = spelled c t :: ts.map (spelled c) := hparts
      obtain ⟨ht, hts⟩ := List.cons.inj hone
      obtain rfl : ts = [] := List.map_eq_nil_iff.mp hts.symm
      cases hrest
      rw [(hstar hi).mp ht.symm]
  · rintro rfl
    cases hsplit : Text.splitOn ',' cs with
    | nil => exact absurd hsplit Text.splitOn_ne_nil
    | cons t ts =>
      rw [hsplit] at h
      cases h with
      | cons hi hrest =>
        cases hrest
        rw [← Text.joined_of_splitOn hsplit]
        simpa [Text.joined] using (hstar hi).mpr rfl

theorem isField_iff (hcs : NoGap cs) {f : Field} (h : fieldOf? c cs = some f) :
    isField (ruleFor c) (inNumbers cs) = true ↔ CommonField c cs := by
  obtain ⟨items, htexts, hitems⟩ :=
    forall₂_progressionText_iff.mp ((fieldOf?_eq_some_iff hcs).mp h)
  have hmeanings := meanings_of_texts htexts hitems
  have hread : readList c cs = some (items, []) := by
    have hlist := readList_of_texts htexts Ends.nil
    rwa [List.append_nil] at hlist
  have hcommon : CommonField c cs ↔ CommonItems items := by
    unfold CommonField
    rw [hread]
    constructor
    · rintro ⟨_, heq, hcommon⟩
      cases heq
      exact hcommon
    · exact fun hcommon => ⟨items, rfl, hcommon⟩
  rw [hcommon, isField_eq, splitOn_spelled, Bool.or_eq_true, decide_eq_true_eq,
    all_isItem_iff hmeanings, spelled_star_iff hmeanings]
  rfl

end Timer

end Cadence.Schedule
