import Cadence.Proofs.Text.Digits
import Cadence.Proofs.Text.Split
import Cadence.Schedule.Expression
import Mathlib.Data.List.Forall2

/-!
# The grammar of a field

The text of a field without gaps in it: items with commas between them. The reader takes such a text
up to its end, where something else comes after it that does not continue it.
-/

namespace Cadence.Schedule

/-! ## The texts -/

/-- The text of a number of 32 bits. -/
def NumberText (cs : List Char) (n : Nat) : Prop := Text.natOf? cs = some n ∧ n ≤ Text.u32Max

def NameText (cs : List Char) : Prop := cs ≠ [] ∧ ∀ ch ∈ cs, ch.isAlpha = true

inductive SpecifierText (c : Component) : List Char → Specifier → Prop
  | star : SpecifierText c ['*'] .all
  | mark (h : c.allowsAny = true) : SpecifierText c ['?'] .all
  | point {cs : List Char} {n : Nat} (h : NumberText cs n) : SpecifierText c cs (.point n)
  | range {as bs : List Char} {a b : Nat} (ha : NumberText as a) (hb : NumberText bs b) :
      SpecifierText c (as ++ '-' :: bs) (.range a b)
  | names {as bs : List Char} (ha : NameText as) (hb : NameText bs) :
      SpecifierText c (as ++ '-' :: bs) (.namedRange as bs)

inductive ItemText (c : Component) : List Char → Item → Prop
  | plain {cs : List Char} {s : Specifier} (h : SpecifierText c cs s) : ItemText c cs (.plain s)
  | stepped {cs ds : List Char} {s : Specifier} {n : Nat} (h : SpecifierText c cs s)
      (hstep : NumberText ds n) : ItemText c (cs ++ '/' :: ds) (.stepped s n)
  | named {cs : List Char} (h : NameText cs) : ItemText c cs (.named cs)

/-! ## Numbers and names -/

variable {c : Component} {cs ds tail rest : List Char} {n : Nat}

theorem NumberText.isDigit (h : NumberText cs n) : cs ≠ [] ∧ ∀ ch ∈ cs, ch.isDigit = true :=
  Text.digits_of_natOf? h.1

theorem isGap_iff {ch : Char} : isGap ch = true ↔ ch ∈ [' ', '\t', '\r', '\n'] := by
  simp [isGap, or_assoc]

theorem ne_of_isAlphanum {ch : Char} (h : ch.isAlphanum = true) :
    isGap ch = false ∧ ch ∉ ['*', '?', '-', '/', ','] := by
  have hgap : ∀ d ∈ [' ', '\t', '\r', '\n'], d.isAlphanum = false := by simp
  have hmark : ∀ d ∈ ['*', '?', '-', '/', ','], d.isAlphanum = false := by simp
  refine ⟨?_, fun hmem => ?_⟩
  · by_contra hne
    have := hgap ch (isGap_iff.mp (by simpa using hne))
    rw [h] at this
    cases this
  · have := hmark ch hmem
    rw [h] at this
    cases this

theorem NumberText.isAlphanum (h : NumberText cs n) : ∀ ch ∈ cs, ch.isAlphanum = true :=
  fun ch hch => Text.isAlphanum_of_isDigit (h.isDigit.2 ch hch)

theorem NameText.isAlphanum (h : NameText cs) : ∀ ch ∈ cs, ch.isAlphanum = true :=
  fun ch hch => Text.isAlphanum_of_isAlpha (h.2 ch hch)

theorem isAlpha_of_isDigit {ch : Char} (h : ch.isDigit = true) : ch.isAlpha = false := by
  rw [Char.isDigit_iff_toNat] at h
  simp only [Char.reduceToNat] at h
  have hletter : ¬ (65 ≤ ch.toNat ∧ ch.toNat ≤ 90) ∧ ¬ (97 ≤ ch.toNat ∧ ch.toNat ≤ 122) := by omega
  unfold Char.isAlpha Char.isUpper Char.isLower
  simpa [UInt32.le_iff_toNat_le] using hletter

/-- The text does not begin with a character of a kind. -/
def NoHead (p : Char → Bool) (cs : List Char) : Prop := ∀ ch rest, cs = ch :: rest → p ch = false

theorem NoHead.nil (p : Char → Bool) : NoHead p [] := fun _ _ h => by cases h

theorem NoHead.cons {p : Char → Bool} {ch : Char} (h : p ch = false) : NoHead p (ch :: cs) :=
  fun _ _ heq => (List.cons.inj heq).1 ▸ h

theorem NoHead.mono {p q : Char → Bool} (hpq : ∀ ch, q ch = true → p ch = true)
    (h : NoHead p cs) : NoHead q cs := by
  intro ch rest heq
  by_contra hq
  have := h ch rest heq
  rw [hpq ch (by simpa using hq)] at this
  cases this

theorem skipGaps_of_noHead (h : NoHead isGap cs) : skipGaps cs = cs := by
  cases cs with
  | nil => rfl
  | cons ch cs =>
    unfold skipGaps
    rw [List.dropWhile_cons, h ch cs rfl]
    rfl

theorem skipGaps_append (hne : cs ≠ []) (h : ∀ ch ∈ cs, isGap ch = false) (tail : List Char) :
    skipGaps (cs ++ tail) = cs ++ tail := by
  cases cs with
  | nil => exact absurd rfl hne
  | cons ch cs => exact skipGaps_of_noHead (.cons (h ch List.mem_cons_self))

theorem skipGaps_word (hne : cs ≠ []) (h : ∀ ch ∈ cs, ch.isAlphanum = true) (tail : List Char) :
    skipGaps (cs ++ tail) = cs ++ tail :=
  skipGaps_append hne (fun ch hch => (ne_of_isAlphanum (h ch hch)).1) tail

theorem span_append {p : Char → Bool} (hcs : ∀ ch ∈ cs, p ch = true) (htail : NoHead p tail) :
    (cs ++ tail).takeWhile p = cs ∧ (cs ++ tail).dropWhile p = tail := by
  rw [List.takeWhile_append_of_pos hcs, List.dropWhile_append_of_pos hcs]
  cases tail with
  | nil => simp
  | cons ch rest => simp [htail ch rest rfl]

theorem readNumber_append (h : NumberText cs n) (htail : NoHead Char.isDigit tail) :
    readNumber (cs ++ tail) = some (n, skipGaps tail) := by
  obtain ⟨hne, hdigits⟩ := h.isDigit
  obtain ⟨hfront, hback⟩ := span_append hdigits htail
  unfold readNumber Text.spanDigits
  simp only [skipGaps_word hne h.isAlphanum, hfront, hback, h.1, Option.bind_some, if_pos h.2]

theorem readName_append (h : NameText cs) (htail : NoHead Char.isAlpha tail) :
    readName (cs ++ tail) = some (cs, skipGaps tail) := by
  obtain ⟨hfront, hback⟩ := span_append h.2 htail
  unfold readName
  simp only [skipGaps_word h.1 h.isAlphanum, hfront, hback, List.isEmpty_eq_false_iff.mpr h.1,
    Bool.false_eq_true, if_false]

theorem readNumber_eq_none (h : NoHead Char.isDigit (skipGaps cs)) : readNumber cs = none := by
  have hfront : (skipGaps cs).takeWhile Char.isDigit = [] := (span_append (List.forall_mem_nil _) h).1
  unfold readNumber Text.spanDigits
  rw [hfront]
  rfl

/-! ## Reading a text with more after it -/

theorem readSpecifier_of_number (h : readNumber cs = some (n, rest)) :
    readSpecifier c cs =
      match readAfterDash readNumber rest with
      | some (m, rest) => some (.range n m, rest)
      | none => some (.point n, rest) := by
  unfold readSpecifier
  split
  · rw [readNumber_eq_none (NoHead.cons (by decide))] at h
    cases h
  · rw [readNumber_eq_none (NoHead.cons (by decide))] at h
    cases h
  · cases hdash : readAfterDash readNumber rest <;> simp only [h, hdash]

theorem readSpecifier_of_no_number {ch : Char} {front : List Char} (hcs : cs = ch :: front)
    (hletter : ch.isAlpha = true) :
    readSpecifier c cs =
      (readName cs).bind fun (a, rest) =>
        (readAfterDash readName rest).map fun (b, rest) => (.namedRange a b, rest) := by
  have hmark := (ne_of_isAlphanum (Text.isAlphanum_of_isAlpha hletter)).2
  have hgap := (ne_of_isAlphanum (Text.isAlphanum_of_isAlpha hletter)).1
  have hnumber : readNumber cs = none := by
    apply readNumber_eq_none
    rw [hcs, skipGaps_of_noHead (.cons hgap)]
    refine .cons ?_
    by_contra hdigit
    have := isAlpha_of_isDigit (by simpa using hdigit)
    rw [hletter] at this
    cases this
  unfold readSpecifier
  split
  · cases hcs
    exact absurd (by simp) hmark
  · cases hcs
    exact absurd (by simp) hmark
  · rw [hnumber]

theorem readSpecifier_of_name (h : NameText cs) (tail : List Char) :
    readSpecifier c (cs ++ tail) =
      (readName (cs ++ tail)).bind fun (a, rest) =>
        (readAfterDash readName rest).map fun (b, rest) => (.namedRange a b, rest) := by
  obtain ⟨ch, front, rfl⟩ := List.exists_cons_of_ne_nil h.1
  exact readSpecifier_of_no_number List.cons_append (h.2 ch List.mem_cons_self)

/-- What comes after a specifier or an item does not belong to it. -/
structure Stops (mark : Char) (tail : List Char) : Prop where
  word : NoHead Char.isAlphanum tail
  mark : NoHead (· = mark) (skipGaps tail)

/-- The reader has come to the end of a part, and may have skipped the gaps after it. -/
def Reached (tail rest : List Char) : Prop := rest = tail ∨ rest = skipGaps tail

theorem Stops.digit {mark : Char} (h : Stops mark tail) : NoHead Char.isDigit tail :=
  h.word.mono fun _ => Text.isAlphanum_of_isDigit

theorem Stops.alpha {mark : Char} (h : Stops mark tail) : NoHead Char.isAlpha tail :=
  h.word.mono fun _ => Text.isAlphanum_of_isAlpha

theorem Stops.noHead {mark : Char} (h : Stops mark tail) (hmark : isGap mark = false)
    (hrest : Reached tail rest) : NoHead (· = mark) rest := by
  rcases hrest with rfl | rfl
  · rintro ch after rfl
    by_contra heq
    obtain rfl : ch = mark := by simpa using heq
    have := h.mark ch after (skipGaps_of_noHead (.cons hmark))
    simp at this
  · exact h.mark

theorem Stops.of_mark {mark ch : Char} (hword : ch.isAlphanum = false) (hgap : isGap ch = false)
    (hne : decide (ch = mark) = false) : Stops mark (ch :: cs) where
  word := .cons hword
  mark := by
    rw [skipGaps_of_noHead (.cons hgap)]
    exact .cons hne

@[simp] theorem readAfterDash_dash {α : Type} (read : List Char → Option (α × List Char)) :
    readAfterDash read ('-' :: cs) = read cs := rfl

theorem readAfterDash_eq_none {α : Type} {read : List Char → Option (α × List Char)}
    (h : NoHead (· = '-') cs) : readAfterDash read cs = none := by
  unfold readAfterDash
  split
  · rename_i rest
    have := h '-' rest rfl
    simp at this
  · rfl

theorem readSpecifier_append {s : Specifier} (h : SpecifierText c cs s) (htail : Stops '-' tail) :
    ∃ rest, readSpecifier c (cs ++ tail) = some (s, rest) ∧ Reached tail rest := by
  cases h with
  | star => exact ⟨tail, rfl, .inl rfl⟩
  | mark hany =>
    refine ⟨tail, ?_, .inl rfl⟩
    unfold readSpecifier
    exact if_pos hany
  | point hn =>
    refine ⟨skipGaps tail, ?_, .inr rfl⟩
    rw [readSpecifier_of_number (readNumber_append hn htail.digit),
      readAfterDash_eq_none htail.mark]
  | @range as bs a b ha hb =>
    refine ⟨skipGaps tail, ?_, .inr rfl⟩
    rw [List.append_assoc, List.cons_append,
      readSpecifier_of_number (readNumber_append ha (.cons (by decide))),
      skipGaps_of_noHead (.cons (by decide)), readAfterDash_dash,
      readNumber_append hb htail.digit]
  | @names as bs ha hb =>
    refine ⟨skipGaps tail, ?_, .inr rfl⟩
    rw [List.append_assoc, List.cons_append, readSpecifier_of_name ha,
      readName_append ha (.cons (by decide)), skipGaps_of_noHead (.cons (by decide))]
    simp only [Option.bind_some, readAfterDash_dash, readName_append hb htail.alpha, Option.map_some]

theorem readItem_of_plain {s : Specifier} (h : readSpecifier c cs = some (s, rest))
    (hrest : NoHead (· = '/') rest) : readItem c cs = some (.plain s, rest) := by
  unfold readItem
  rw [h]
  simp only
  split
  · rename_i after
    have := hrest '/' after rfl
    simp at this
  · rfl

theorem readItem_of_stepped {s : Specifier} {after : List Char}
    (h : readSpecifier c cs = some (s, '/' :: after)) (hstep : readNumber after = some (n, rest)) :
    readItem c cs = some (.stepped s n, rest) := by
  unfold readItem
  rw [h]
  simp only [hstep]

theorem readItem_of_named {name : List Char} (h : readSpecifier c cs = none)
    (hname : readName cs = some (name, rest)) : readItem c cs = some (.named name, rest) := by
  unfold readItem
  rw [h, hname]
  rfl

theorem readItem_append {i : Item} (h : ItemText c cs i) (hdash : Stops '-' tail)
    (hslash : Stops '/' tail) :
    ∃ rest, readItem c (cs ++ tail) = some (i, rest) ∧ Reached tail rest := by
  cases h with
  | plain h =>
    obtain ⟨rest, hread, hrest⟩ := readSpecifier_append h hdash
    exact ⟨rest, readItem_of_plain hread (hslash.noHead (by decide) hrest), hrest⟩
  | @stepped cs ds s n h hstep =>
    have hstop : Stops '-' ('/' :: (ds ++ tail)) := .of_mark (by decide) (by decide) (by decide)
    obtain ⟨rest, hread, hrest⟩ := readSpecifier_append h hstop
    have hrest : rest = '/' :: (ds ++ tail) := by
      rcases hrest with rfl | rfl
      · rfl
      · exact skipGaps_of_noHead (.cons (by decide))
    rw [hrest] at hread
    refine ⟨skipGaps tail, ?_, .inr rfl⟩
    rw [List.append_assoc, List.cons_append]
    exact readItem_of_stepped hread (readNumber_append hstep hdash.digit)
  | named h =>
    refine ⟨skipGaps tail, ?_, .inr rfl⟩
    have hname := readName_append h hdash.alpha
    refine readItem_of_named ?_ hname
    rw [readSpecifier_of_name h, hname]
    simp only [Option.bind_some, readAfterDash_eq_none hdash.mark, Option.map_none]

/-! ### Lists -/

theorem forall_mem_append_mark {p : Char → Prop} {mark : Char} (hcs : ∀ ch ∈ cs, p ch)
    (hmark : p mark) (hds : ∀ ch ∈ ds, p ch) : ∀ ch ∈ cs ++ mark :: ds, p ch := by
  rw [List.forall_mem_append, List.forall_mem_cons]
  exact ⟨hcs, hmark, hds⟩

theorem SpecifierText.ne_nil {s : Specifier} (h : SpecifierText c cs s) : cs ≠ [] := by
  cases h with
  | star => exact List.cons_ne_nil _ _
  | mark => exact List.cons_ne_nil _ _
  | point hn => exact hn.isDigit.1
  | range ha hb => exact List.append_ne_nil_of_left_ne_nil ha.isDigit.1 _
  | names ha hb => exact List.append_ne_nil_of_left_ne_nil ha.1 _

theorem SpecifierText.chars {s : Specifier} (h : SpecifierText c cs s) :
    ∀ ch ∈ cs, ch.isAlphanum = true ∨ ch ∈ ['*', '?', '-'] := by
  cases h with
  | star => simp
  | mark => simp
  | point hn => exact fun ch hch => .inl (hn.isAlphanum ch hch)
  | range ha hb =>
    exact forall_mem_append_mark (fun ch hch => .inl (ha.isAlphanum ch hch)) (.inr (by simp))
      fun ch hch => .inl (hb.isAlphanum ch hch)
  | names ha hb =>
    exact forall_mem_append_mark (fun ch hch => .inl (ha.isAlphanum ch hch)) (.inr (by simp))
      fun ch hch => .inl (hb.isAlphanum ch hch)

theorem SpecifierText.no_slash {s : Specifier} (h : SpecifierText c cs s) : '/' ∉ cs :=
  fun hmem => (h.chars '/' hmem).elim (by decide) (by decide)

theorem ItemText.ne_nil {i : Item} (h : ItemText c cs i) : cs ≠ [] := by
  cases h with
  | plain h => exact h.ne_nil
  | stepped h hstep => exact List.append_ne_nil_of_left_ne_nil h.ne_nil _
  | named h => exact h.1

theorem ItemText.chars {i : Item} (h : ItemText c cs i) :
    ∀ ch ∈ cs, ch.isAlphanum = true ∨ ch ∈ ['*', '?', '-', '/'] := by
  have hspecifier {cs : List Char} {s : Specifier} (h : SpecifierText c cs s) :
      ∀ ch ∈ cs, ch.isAlphanum = true ∨ ch ∈ ['*', '?', '-', '/'] :=
    fun ch hch => (h.chars ch hch).imp_right fun hmem => List.mem_append_left ['/'] hmem
  cases h with
  | plain h => exact hspecifier h
  | stepped h hstep =>
    exact forall_mem_append_mark (hspecifier h) (.inr (by simp))
      fun ch hch => .inl (hstep.isAlphanum ch hch)
  | named h => exact fun ch hch => .inl (h.isAlphanum ch hch)

theorem ItemText.noGap {i : Item} (h : ItemText c cs i) : ∀ ch ∈ cs, isGap ch = false := by
  intro ch hch
  have hmark : ∀ d ∈ ['*', '?', '-', '/'], isGap d = false := by simp [isGap]
  exact (h.chars ch hch).elim (fun h => (ne_of_isAlphanum h).1) (hmark ch)

theorem ItemText.noComma {i : Item} (h : ItemText c cs i) : ',' ∉ cs :=
  fun hch => (h.chars ',' hch).elim (by decide) (by decide)

/-- What comes after a field does not belong to it. -/
structure Ends (tail : List Char) : Prop where
  dash : Stops '-' tail
  slash : Stops '/' tail
  comma : Stops ',' tail

theorem skipGaps_noHead (cs : List Char) : NoHead isGap (skipGaps cs) := by
  intro ch rest h
  have := List.head?_dropWhile_not isGap cs
  unfold skipGaps at h
  rw [h] at this
  simpa using this

theorem skipGaps_skipGaps (cs : List Char) : skipGaps (skipGaps cs) = skipGaps cs :=
  skipGaps_of_noHead (skipGaps_noHead cs)

theorem readItems_of_noHead (h : NoHead (· = ',') cs) (fuel : Nat) :
    readItems c fuel cs = ([], cs) := by
  cases fuel with
  | zero => rfl
  | succ fuel =>
    unfold readItems
    split
    · rename_i after
      have := h ',' after rfl
      simp at this
    · rfl

theorem stops_of_ends {mark : Char} (hcomma : decide (',' = mark) = false) (h : Stops mark tail)
    (texts : List (List Char)) : Stops mark (texts.flatMap (',' :: ·) ++ tail) := by
  cases texts with
  | nil => exact h
  | cons t ts => exact .of_mark (by decide) (by decide) hcomma

theorem readItems_append {texts : List (List Char)} {items : List Item}
    (h : List.Forall₂ (ItemText c) texts items) (htail : Ends tail) {fuel : Nat}
    (hfuel : texts.length ≤ fuel) {start : List Char}
    (hstart : Reached (texts.flatMap (',' :: ·) ++ tail) start) :
    ∃ rest, readItems c fuel start = (items, rest) ∧ skipGaps rest = skipGaps tail := by
  induction h generalizing fuel start with
  | nil =>
    refine ⟨start, readItems_of_noHead (htail.comma.noHead (by decide) hstart) fuel, ?_⟩
    rcases hstart with rfl | rfl
    · rfl
    · exact skipGaps_skipGaps tail
  | @cons t i ts items hitem hrest ih =>
    obtain ⟨fuel, rfl⟩ : ∃ n, fuel = n + 1 := ⟨fuel - 1, by simp at hfuel; omega⟩
    have hcomma : start = ',' :: (t ++ (ts.flatMap (',' :: ·) ++ tail)) := by
      rcases hstart with rfl | rfl
      · simp
      · rw [skipGaps_of_noHead]
        · simp
        · exact .cons (by decide)
    obtain ⟨reached, hread, hreached⟩ := readItem_append hitem
      (stops_of_ends (by decide) htail.dash ts) (stops_of_ends (by decide) htail.slash ts)
    obtain ⟨rest, hitems, hend⟩ := ih (Nat.le_of_succ_le_succ hfuel) hreached
    refine ⟨rest, ?_, hend⟩
    rw [hcomma, readItems, hread]
    simp only [hitems]

theorem length_le_flatMap (mark : Char) (texts : List (List Char)) :
    texts.length ≤ (texts.flatMap (mark :: ·)).length := by
  induction texts with
  | nil => exact Nat.le_refl 0
  | cons t ts ih =>
    rw [List.flatMap_cons, List.length_append, List.length_cons, List.length_cons]
    omega

theorem readList_append {texts : List (List Char)} {items : List Item} {t : List Char} {i : Item}
    (hitem : ItemText c t i) (hitems : List.Forall₂ (ItemText c) texts items) (htail : Ends tail) :
    readList c (Text.joined ',' t texts ++ tail) = some (i :: items, skipGaps tail) := by
  have hskip : skipGaps (t ++ (texts.flatMap (',' :: ·) ++ tail)) =
      t ++ (texts.flatMap (',' :: ·) ++ tail) := skipGaps_append hitem.ne_nil hitem.noGap _
  obtain ⟨reached, hread, hreached⟩ := readItem_append hitem
    (stops_of_ends (by decide) htail.dash texts) (stops_of_ends (by decide) htail.slash texts)
  have hfuel : texts.length ≤ reached.length := by
    cases texts with
    | nil => exact Nat.zero_le _
    | cons t' ts =>
      have hcomma : reached = (t' :: ts).flatMap (',' :: ·) ++ tail := by
        rcases hreached with rfl | rfl
        · rfl
        · exact skipGaps_of_noHead (.cons (by decide))
      have := length_le_flatMap ',' (t' :: ts)
      rw [hcomma, List.length_append]
      omega
  obtain ⟨rest, hrest, hend⟩ := readItems_append hitems htail hfuel hreached
  unfold readList Text.joined
  rw [List.append_assoc, hskip, hread]
  simp only [Option.map_some, hrest, hend]

end Cadence.Schedule
