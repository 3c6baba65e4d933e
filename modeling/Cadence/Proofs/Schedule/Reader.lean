import Cadence.Proofs.Schedule.Grammar

/-!
# What the reader of a field accepts

The reader accepts the texts of the grammar and no others, and it reads a field in front of further
fields as it reads it alone.
-/

namespace Cadence.Schedule

variable {c : Component} {cs ds tail rest : List Char} {n : Nat}

def NoGap (cs : List Char) : Prop := ∀ ch ∈ cs, isGap ch = false

theorem NoGap.right (h : NoGap (cs ++ ds)) : NoGap ds :=
  fun ch hch => h ch (List.mem_append_right cs hch)

theorem NoGap.behind {ch : Char} (h : NoGap (ch :: cs)) : NoGap cs :=
  fun d hd => h d (List.mem_cons_of_mem ch hd)

theorem skipGaps_of_noGap (h : NoGap cs) : skipGaps cs = cs := by
  cases cs with
  | nil => rfl
  | cons ch cs => exact skipGaps_of_noHead (.cons (h ch List.mem_cons_self))

/-! ## The front of a text

A text without gaps, and a tail of other fields after it. What is read is a part of the text. -/

/-- The marks that continue a field. -/
def continues (ch : Char) : Bool := ch ∈ ['-', '/', ',']

/-- The tail does not continue the text, and the text asks for no more unless there is no tail. -/
structure Front (cs tail : List Char) : Prop where
  noGap : NoGap cs
  ends : Ends tail
  closed : tail = [] ∨ NoHead continues cs.reverse

/-- What is left of the text and its tail. Behind the whole text gaps may have been skipped. -/
inductive Leaves (tail : List Char) : List Char → List Char → Prop
  | within {left : List Char} (hne : left ≠ []) : Leaves tail left (left ++ tail)
  | behind {rest : List Char} (h : Reached tail rest) : Leaves tail [] rest

variable {left : List Char} {ch : Char}

theorem NoHead.of_append {p : Char → Bool} (h : NoHead p (cs ++ ds)) : NoHead p cs :=
  fun ch rest heq => h ch (rest ++ ds) (by rw [heq, List.cons_append])

theorem Front.right (h : Front (cs ++ ds) tail) : Front ds tail where
  noGap := h.noGap.right
  ends := h.ends
  closed := h.closed.imp_right fun hclosed => by
    rw [List.reverse_append] at hclosed
    exact hclosed.of_append

theorem Front.behind (h : Front (ch :: cs) tail) (hch : continues ch = true) :
    Front cs tail ∧ (cs ≠ [] ∨ tail = []) := by
  have hright : Front cs tail := Front.right (show Front ([ch] ++ cs) tail from h)
  refine ⟨hright, ?_⟩
  by_contra hnot
  simp only [not_or, not_not] at hnot
  obtain ⟨rfl, htail⟩ := hnot
  have := h.closed.resolve_left htail ch [] rfl
  rw [hch] at this
  cases this

theorem skipGaps_front (hcs : NoGap cs) (hstart : cs ≠ [] ∨ tail = []) :
    skipGaps (cs ++ tail) = cs ++ tail := by
  rcases hstart with hne | rfl
  · exact skipGaps_append hne hcs tail
  · rw [List.append_nil]
    exact skipGaps_of_noGap hcs

theorem Leaves.of_append (tail left : List Char) : Leaves tail left (left ++ tail) := by
  cases left with
  | nil => exact .behind (.inl rfl)
  | cons ch left => exact .within (List.cons_ne_nil ch left)

theorem Leaves.of_skipGaps (hleft : NoGap left) : Leaves tail left (skipGaps (left ++ tail)) := by
  cases left with
  | nil => exact .behind (.inr rfl)
  | cons ch left =>
    rw [skipGaps_front hleft (.inl (List.cons_ne_nil ch left))]
    exact .within (List.cons_ne_nil ch left)

theorem Leaves.of_mark (h : Leaves tail left (ch :: rest)) (htail : Ends tail)
    (hch : continues ch = true) : ∃ after, left = ch :: after ∧ rest = after ++ tail := by
  have hmark : ch = '-' ∨ ch = '/' ∨ ch = ',' := by simpa [continues] using hch
  generalize hstart : ch :: rest = start at h
  cases h with
  | within hne =>
    obtain ⟨d, after, rfl⟩ := List.exists_cons_of_ne_nil hne
    rw [List.cons_append, List.cons.injEq] at hstart
    obtain ⟨rfl, rfl⟩ := hstart
    exact ⟨after, rfl, rfl⟩
  | behind h =>
    have hstop : Stops ch tail := by
      rcases hmark with rfl | rfl | rfl
      · exact htail.dash
      · exact htail.slash
      · exact htail.comma
    have hgap : isGap ch = false := by rcases hmark with rfl | rfl | rfl <;> rfl
    have := hstop.noHead hgap h ch rest hstart.symm
    simp at this

theorem exists_of_start (hstart : cs ≠ [] ∨ tail = []) (h : cs ++ tail = ch :: rest) :
    ∃ front, cs = ch :: front ∧ rest = front ++ tail := by
  cases cs with
  | nil =>
    rw [hstart.resolve_left (not_not.mpr rfl)] at h
    cases h
  | cons d front =>
    cases h
    exact ⟨front, rfl, rfl⟩

theorem span_front {p : Char → Bool} (cs : List Char) (htail : NoHead p tail) :
    (cs ++ tail).takeWhile p = cs.takeWhile p ∧
      (cs ++ tail).dropWhile p = cs.dropWhile p ++ tail := by
  induction cs with
  | nil => exact span_append (List.forall_mem_nil _) htail
  | cons ch cs ih =>
    rw [List.cons_append, List.takeWhile_cons, List.takeWhile_cons, List.dropWhile_cons,
      List.dropWhile_cons]
    split
    · exact ⟨congrArg _ ih.1, ih.2⟩
    · exact ⟨rfl, rfl⟩

theorem of_readNumber (h : Front cs tail) (hstart : cs ≠ [] ∨ tail = [])
    (hread : readNumber (cs ++ tail) = some (n, rest)) :
    ∃ ds left, cs = ds ++ left ∧ NumberText ds n ∧ Leaves tail left rest := by
  obtain ⟨htake, hdrop⟩ := span_front cs h.ends.dash.digit
  unfold readNumber Text.spanDigits at hread
  simp only [skipGaps_front h.noGap hstart, htake, hdrop, Option.bind_eq_some_iff] at hread
  obtain ⟨m, hm, hread⟩ := hread
  split at hread
  · rename_i hle
    cases hread
    have hback : NoGap (cs.dropWhile Char.isDigit) :=
      fun ch hch => h.noGap ch ((List.dropWhile_sublist _).mem hch)
    exact ⟨_, _, List.takeWhile_append_dropWhile.symm, ⟨hm, hle⟩, .of_skipGaps hback⟩
  · cases hread

theorem of_readName {name : List Char} (h : Front cs tail) (hstart : cs ≠ [] ∨ tail = [])
    (hread : readName (cs ++ tail) = some (name, rest)) :
    ∃ left, cs = name ++ left ∧ NameText name ∧ Leaves tail left rest := by
  obtain ⟨htake, hdrop⟩ := span_front cs h.ends.dash.alpha
  unfold readName at hread
  simp only [skipGaps_front h.noGap hstart, htake, hdrop] at hread
  split at hread
  · cases hread
  · rename_i hne
    cases hread
    have hback : NoGap (cs.dropWhile Char.isAlpha) :=
      fun ch hch => h.noGap ch ((List.dropWhile_sublist _).mem hch)
    exact ⟨_, List.takeWhile_append_dropWhile.symm,
      ⟨by simpa using hne, fun ch hch => List.mem_takeWhile_imp hch⟩, .of_skipGaps hback⟩

theorem of_readAfterDash {α : Type} {read : List Char → Option (α × List Char)} {a : α}
    (h : Front left tail) (hleft : Leaves tail left cs)
    (hread : readAfterDash read cs = some (a, rest)) :
    ∃ after, left = '-' :: after ∧ Front after tail ∧ (after ≠ [] ∨ tail = []) ∧
      read (after ++ tail) = some (a, rest) := by
  unfold readAfterDash at hread
  split at hread
  · obtain ⟨after, rfl, rfl⟩ := hleft.of_mark h.ends rfl
    obtain ⟨hafter, hstart⟩ := h.behind rfl
    exact ⟨after, rfl, hafter, hstart, hread⟩
  · cases hread

theorem of_readSpecifier {s : Specifier} (h : Front cs tail) (hstart : cs ≠ [] ∨ tail = [])
    (hread : readSpecifier c (cs ++ tail) = some (s, rest)) :
    ∃ text left, cs = text ++ left ∧ SpecifierText c text s ∧ Leaves tail left rest := by
  unfold readSpecifier at hread
  -- A star, a question mark, a number or a range of numbers, or a range of names.
  split at hread
  · rename_i heq
    cases hread
    obtain ⟨left, rfl, rfl⟩ := exists_of_start hstart heq
    exact ⟨['*'], left, rfl, .star, .of_append tail left⟩
  · rename_i heq
    split at hread
    · rename_i hany
      cases hread
      obtain ⟨left, rfl, rfl⟩ := exists_of_start hstart heq
      exact ⟨['?'], left, rfl, .mark hany, .of_append tail left⟩
    · cases hread
  · split at hread
    · rename_i n after hnumber
      obtain ⟨as, left, rfl, ha, hleft⟩ := of_readNumber h hstart hnumber
      split at hread
      · rename_i m rest' hdash
        cases hread
        obtain ⟨behind, rfl, hbehind, hmore, hm⟩ := of_readAfterDash h.right hleft hdash
        obtain ⟨bs, left, rfl, hb, hleft⟩ := of_readNumber hbehind hmore hm
        exact ⟨as ++ '-' :: bs, left, by simp, .range ha hb, hleft⟩
      · cases hread
        exact ⟨as, left, rfl, .point ha, hleft⟩
    · simp only [Option.bind_eq_some_iff, Option.map_eq_some_iff] at hread
      obtain ⟨⟨as, after⟩, hname, ⟨bs, behind⟩, hdash, hread⟩ := hread
      cases hread
      obtain ⟨left, rfl, ha, hleft⟩ := of_readName h hstart hname
      obtain ⟨front, rfl, hfront, hmore, hb⟩ := of_readAfterDash h.right hleft hdash
      obtain ⟨left, rfl, hbs, hleft⟩ := of_readName hfront hmore hb
      exact ⟨as ++ '-' :: bs, left, by simp, .names ha hbs, hleft⟩

theorem of_readItem {i : Item} (h : Front cs tail) (hstart : cs ≠ [] ∨ tail = [])
    (hread : readItem c (cs ++ tail) = some (i, rest)) :
    ∃ text left, cs = text ++ left ∧ ItemText c text i ∧ Leaves tail left rest := by
  unfold readItem at hread
  split at hread
  · rename_i s after hspecifier
    obtain ⟨text, left, rfl, hs, hleft⟩ := of_readSpecifier h hstart hspecifier
    split at hread
    · split at hread
      · rename_i behind n rest' hstep
        cases hread
        obtain ⟨behind, rfl, rfl⟩ := hleft.of_mark h.ends rfl
        obtain ⟨hbehind, hmore⟩ := h.right.behind rfl
        obtain ⟨ds, left, rfl, hn, hleft⟩ := of_readNumber hbehind hmore hstep
        exact ⟨text ++ '/' :: ds, left, by simp, .stepped hs hn, hleft⟩
      · cases hread
        exact ⟨text, left, rfl, .plain hs, hleft⟩
    · cases hread
      exact ⟨text, left, rfl, .plain hs, hleft⟩
  · rw [Option.map_eq_some_iff] at hread
    obtain ⟨⟨name, after⟩, hname, hread⟩ := hread
    cases hread
    obtain ⟨left, rfl, htext, hleft⟩ := of_readName h hstart hname
    exact ⟨name, left, rfl, .named htext, hleft⟩

theorem of_readItems {fuel : Nat} {items : List Item} (h : Front left tail)
    (hleft : Leaves tail left cs) (hread : readItems c fuel cs = (items, rest)) :
    ∃ texts left', left = texts.flatMap (',' :: ·) ++ left' ∧
      List.Forall₂ (ItemText c) texts items ∧ Leaves tail left' rest := by
  induction fuel generalizing left cs items with
  | zero =>
    cases hread
    exact ⟨[], left, rfl, .nil, hleft⟩
  | succ fuel ih =>
    unfold readItems at hread
    split at hread
    · split at hread
      · rename_i after i rest' hitem
        cases hread
        obtain ⟨after, rfl, rfl⟩ := hleft.of_mark h.ends rfl
        obtain ⟨hafter, hmore⟩ := h.behind rfl
        obtain ⟨text, left, rfl, htext, hleft⟩ := of_readItem hafter hmore hitem
        obtain ⟨texts, left', rfl, htexts, hleft'⟩ := ih hafter.right hleft rfl
        exact ⟨text :: texts, left', by simp, .cons htext htexts, hleft'⟩
      · cases hread
        exact ⟨[], left, rfl, .nil, hleft⟩
    · cases hread
      exact ⟨[], left, rfl, .nil, hleft⟩

/-! ## Fields -/

theorem noComma_of_texts {texts : List (List Char)} {items : List Item}
    (h : List.Forall₂ (ItemText c) texts items) : ∀ t ∈ texts, ',' ∉ t := by
  induction h with
  | nil => exact List.forall_mem_nil _
  | cons hitem _ ih => exact List.forall_mem_cons.mpr ⟨hitem.noComma, ih⟩

theorem Ends.nil : Ends [] :=
  ⟨⟨.nil _, .nil _⟩, ⟨.nil _, .nil _⟩, ⟨.nil _, .nil _⟩⟩

theorem readList_of_texts {items : List Item}
    (h : List.Forall₂ (ItemText c) (Text.splitOn ',' cs) items) (htail : Ends tail) :
    readList c (cs ++ tail) = some (items, skipGaps tail) := by
  cases hsplit : Text.splitOn ',' cs with
  | nil => exact absurd hsplit Text.splitOn_ne_nil
  | cons t ts =>
    rw [hsplit] at h
    cases h with
    | cons hitem hitems =>
      rw [← Text.joined_of_splitOn hsplit]
      exact readList_append hitem hitems htail

/-- A list is read to the end of the text, and its items are the parts of the text, or a part of the
text is left. -/
theorem of_readList {items : List Item} (h : Front cs tail) (hstart : cs ≠ [] ∨ tail = [])
    (hread : readList c (cs ++ tail) = some (items, rest)) :
    (List.Forall₂ (ItemText c) (Text.splitOn ',' cs) items ∧ rest = skipGaps tail) ∨
      ∃ front left, cs = front ++ left ∧ left ≠ [] ∧ rest = left ++ tail := by
  unfold readList at hread
  rw [skipGaps_front h.noGap hstart, Option.map_eq_some_iff] at hread
  obtain ⟨⟨i, behind⟩, hitem, hread⟩ := hread
  rcases hitems : readItems c behind.length behind with ⟨more, last⟩
  simp only [hitems, Prod.mk.injEq] at hread
  obtain ⟨rfl, rfl⟩ := hread
  obtain ⟨t, left, rfl, ht, hleft⟩ := of_readItem h hstart hitem
  obtain ⟨ts, left', rfl, hts, hleft'⟩ := of_readItems h.right hleft hitems
  cases hleft' with
  | within hne =>
    refine .inr ⟨t ++ ts.flatMap (',' :: ·), left', (List.append_assoc ..).symm, hne, ?_⟩
    exact skipGaps_append hne h.noGap.right.right tail
  | behind hlast =>
    refine .inl ⟨?_, ?_⟩
    · have hsplit := Text.splitOn_joined (noComma_of_texts (.cons ht hts))
      unfold Text.joined at hsplit
      rw [List.append_nil, hsplit]
      exact .cons ht hts
    · rcases hlast with rfl | rfl
      · rfl
      · exact skipGaps_skipGaps tail

theorem texts_of_readList (hcs : NoGap cs) {items : List Item}
    (h : readList c cs = some (items, [])) :
    List.Forall₂ (ItemText c) (Text.splitOn ',' cs) items := by
  rw [← List.append_nil cs] at h
  rcases of_readList ⟨hcs, Ends.nil, .inl rfl⟩ (.inr rfl) h with ⟨htexts, -⟩ | ⟨_, left, -, hne, hrest⟩
  · exact htexts
  · exact absurd (List.append_eq_nil_iff.mp hrest.symm).1 hne

/-- The text of an item that has a meaning. -/
def ProgressionText (c : Component) (text : List Char) (p : Progression) : Prop :=
  ∃ i, ItemText c text i ∧ i.progression? c = some p

theorem mapM_eq_some_iff {α β : Type} {f : α → Option β} {as : List α} {bs : List β} :
    as.mapM f = some bs ↔ List.Forall₂ (fun a b => f a = some b) as bs := by
  induction as generalizing bs with
  | nil =>
    rw [List.mapM_nil, List.forall₂_nil_left_iff, Option.pure_def, Option.some.injEq]
    exact eq_comm
  | cons a as ih =>
    rw [List.mapM_cons, List.forall₂_cons_left_iff]
    simp only [Option.bind_eq_bind, Option.bind_eq_some_iff, Option.pure_def, Option.some.injEq, ih]
    constructor
    · rintro ⟨b, hb, bs, hbs, rfl⟩
      exact ⟨b, bs, hb, hbs, rfl⟩
    · rintro ⟨b, bs, hb, hbs, rfl⟩
      exact ⟨b, hb, bs, hbs, rfl⟩

theorem forall₂_progressionText_iff {texts : List (List Char)} {f : Field} :
    List.Forall₂ (ProgressionText c) texts f ↔
      ∃ items, List.Forall₂ (ItemText c) texts items ∧
        items.mapM (Item.progression? c) = some f := by
  simp only [mapM_eq_some_iff]
  constructor
  · intro h
    induction h with
    | nil => exact ⟨[], .nil, .nil⟩
    | cons hp _ ih =>
      obtain ⟨i, hi, hip⟩ := hp
      obtain ⟨items, htexts, hitems⟩ := ih
      exact ⟨i :: items, .cons hi htexts, .cons hip hitems⟩
  · rintro ⟨items, htexts, hitems⟩
    induction htexts generalizing f with
    | nil =>
      cases hitems
      exact .nil
    | cons hi _ ih =>
      cases hitems with
      | cons hp hrest => exact .cons ⟨_, hi, hp⟩ (ih hrest)

theorem fieldOf?_eq_some_iff (hcs : NoGap cs) {f : Field} :
    fieldOf? c cs = some f ↔ List.Forall₂ (ProgressionText c) (Text.splitOn ',' cs) f := by
  rw [forall₂_progressionText_iff]
  unfold fieldOf? readField
  constructor
  · intro h
    split at h
    · rename_i g hread
      cases h
      simp only [Option.bind_eq_some_iff, Option.map_eq_some_iff, Prod.mk.injEq] at hread
      obtain ⟨⟨items, rest⟩, hlist, f', hitems, rfl, rfl⟩ := hread
      exact ⟨items, texts_of_readList hcs hlist, hitems⟩
    · cases h
  · rintro ⟨items, htexts, hitems⟩
    have hlist := readList_of_texts htexts Ends.nil
    rw [List.append_nil] at hlist
    simp only [hlist, Option.bind_some, hitems, Option.map_some]
    rfl

theorem readField_append (hcs : NoGap cs) {f : Field} (h : fieldOf? c cs = some f)
    (htail : Ends tail) : readField c (cs ++ tail) = some (f, skipGaps tail) := by
  obtain ⟨items, htexts, hitems⟩ :=
    forall₂_progressionText_iff.mp ((fieldOf?_eq_some_iff hcs).mp h)
  unfold readField
  rw [readList_of_texts htexts htail]
  simp only [Option.bind_some, hitems, Option.map_some]

theorem of_readField (h : Front cs tail) (hstart : cs ≠ [] ∨ tail = []) {f : Field}
    (hread : readField c (cs ++ tail) = some (f, rest)) :
    (fieldOf? c cs = some f ∧ rest = skipGaps tail) ∨
      ∃ front left, cs = front ++ left ∧ left ≠ [] ∧ rest = left ++ tail := by
  unfold readField at hread
  simp only [Option.bind_eq_some_iff, Option.map_eq_some_iff, Prod.mk.injEq] at hread
  obtain ⟨⟨items, rest⟩, hlist, f, hitems, rfl, rfl⟩ := hread
  refine (of_readList h hstart hlist).imp_left ?_
  rintro ⟨htexts, hrest⟩
  refine ⟨(fieldOf?_eq_some_iff h.noGap).mpr ?_, hrest⟩
  exact forall₂_progressionText_iff.mpr ⟨items, htexts, hitems⟩

theorem ItemText.unique {i j : Item} (hi : ItemText c cs i) (hj : ItemText c cs j) : i = j := by
  obtain ⟨_, hread, -⟩ := readItem_append hi Ends.nil.dash Ends.nil.slash
  obtain ⟨_, hread', -⟩ := readItem_append hj Ends.nil.dash Ends.nil.slash
  rw [hread] at hread'
  cases hread'
  rfl

theorem ProgressionText.unique {p q : Progression} (hp : ProgressionText c cs p)
    (hq : ProgressionText c cs q) : p = q := by
  obtain ⟨i, hi, hip⟩ := hp
  obtain ⟨j, hj, hjq⟩ := hq
  rw [hi.unique hj, hjq] at hip
  cases hip
  rfl

theorem SpecifierText.unique {s s' : Specifier} (hs : SpecifierText c cs s)
    (hs' : SpecifierText c cs s') : s = s' :=
  Item.plain.inj ((ItemText.plain hs).unique (ItemText.plain hs'))

theorem ItemText.of_slash {i : Item} (hcs : '/' ∉ cs) (h : ItemText c (cs ++ '/' :: ds) i) :
    ∃ s n, i = .stepped s n ∧ SpecifierText c cs s ∧ NumberText ds n := by
  have hcut := Text.cut_append (b := ds) hcs
  generalize htext : cs ++ '/' :: ds = text at h hcut
  cases h with
  | plain h => exact absurd (htext ▸ by simp) h.no_slash
  | @stepped front back s n h hstep =>
    rw [Text.cut_append h.no_slash] at hcut
    cases hcut
    exact ⟨s, n, rfl, h, hstep⟩
  | named h =>
    exact absurd (h.2 '/' (htext ▸ by simp)) (by decide)

theorem exists_mem_iff_of_forall₂ {α β : Type} {R : α → β → Prop} {as : List α} {bs : List β}
    (hR : Relator.RightUnique R) (h : List.Forall₂ R as bs) (P : β → Prop) :
    (∃ b ∈ bs, P b) ↔ ∃ a ∈ as, ∃ b, R a b ∧ P b := by
  induction h with
  | nil => simp
  | @cons a b as bs hab _ ih =>
    rw [List.exists_mem_cons_iff, List.exists_mem_cons_iff, ih]
    refine or_congr ⟨fun hb => ⟨b, hab, hb⟩, ?_⟩ Iff.rfl
    rintro ⟨b', hab', hb'⟩
    rwa [hR hab hab']

theorem exists_of_mem_of_forall₂ {α β : Type} {R : α → β → Prop} {as : List α} {bs : List β}
    (h : List.Forall₂ R as bs) {a : α} (ha : a ∈ as) : ∃ b ∈ bs, R a b := by
  induction h with
  | nil => cases ha
  | @cons a' b as bs hab _ ih =>
    rcases List.mem_cons.mp ha with rfl | ha
    · exact ⟨b, List.mem_cons_self, hab⟩
    · obtain ⟨b', hb', hab'⟩ := ih ha
      exact ⟨b', List.mem_cons_of_mem b hb', hab'⟩

theorem mem_iff_of_texts {texts : List (List Char)} {f : Field}
    (h : List.Forall₂ (ProgressionText c) texts f) :
    f.mem n = true ↔ ∃ t ∈ texts, ∃ p, ProgressionText c t p ∧ p.mem n = true := by
  unfold Field.mem
  rw [List.any_eq_true]
  have hunique : Relator.RightUnique (ProgressionText c) := fun _ _ _ => ProgressionText.unique
  exact exists_mem_iff_of_forall₂ hunique h (Progression.mem · n = true)

/-- The text of a field says the number. -/
def Says (c : Component) (cs : List Char) (n : Nat) : Prop :=
  ∃ t ∈ Text.splitOn ',' cs, ∃ p, ProgressionText c t p ∧ p.mem n = true

theorem mem_iff_says (hcs : NoGap cs) {f : Field} (h : fieldOf? c cs = some f) (n : Nat) :
    f.mem n = true ↔ Says c cs n :=
  mem_iff_of_texts ((fieldOf?_eq_some_iff hcs).mp h)

theorem range?_eq_some_iff {a b first last : Nat} :
    range? c a b = some (first, last) ↔
      (first = a ∧ last = b) ∧ c.low ≤ a ∧ a ≤ b ∧ b ≤ c.high := by
  unfold range? Component.admits
  split
  · rename_i h
    simp only [Bool.and_eq_true, decide_eq_true_eq] at h
    simp only [Option.some.injEq, Prod.mk.injEq]
    omega
  · rename_i h
    simp only [Bool.and_eq_true, decide_eq_true_eq] at h
    simp only [reduceCtorEq, false_iff]
    omega

theorem progression?_plain {s : Specifier} {p : Progression} :
    (Item.plain s).progression? c = some p ↔
      ∃ first last, s.bounds? c false = some (first, last) ∧ p = ⟨first, last, 1⟩ := by
  simp only [Item.progression?, Option.map_eq_some_iff, Prod.exists, eq_comm (b := p)]

theorem progression?_stepped {s : Specifier} {step : Nat} {p : Progression} :
    (Item.stepped s step).progression? c = some p ↔ (1 ≤ step ∧ step ≤ c.high) ∧
      ∃ first last, s.bounds? c true = some (first, last) ∧ p = ⟨first, last, step⟩ := by
  unfold Item.progression?
  simp only
  split
  · rename_i h
    simp only [h, Option.map_eq_some_iff, Prod.exists, eq_comm (b := p), true_and]
  · rename_i h
    simp only [h, reduceCtorEq, false_and]

theorem progression?_named {name : List Char} {p : Progression} :
    (Item.named name).progression? c = some p ↔
      ∃ n, c.named? name = some n ∧ p = ⟨n, n, 1⟩ := by
  simp only [Item.progression?, Option.map_eq_some_iff, eq_comm (b := p)]

theorem mem_names_of_named? {name : List Char} (h : c.named? name = some n) :
    (String.ofList (name.map Char.toLower), n) ∈ c.names := by
  unfold Component.named? at h
  obtain ⟨before, after, hlist, -⟩ := List.lookup_eq_some_iff.mp h
  rw [hlist]
  exact List.mem_append_right before List.mem_cons_self

theorem named?_bounds {name : List Char} (h : c.named? name = some n) : c.low ≤ n ∧ n ≤ c.high := by
  have hnames : ∀ x ∈ c.names, c.low ≤ x.2 ∧ x.2 ≤ c.high := by cases c <;> decide
  exact hnames _ (mem_names_of_named? h)

theorem bounds?_bounds {s : Specifier} {o : Bool} {first last : Nat}
    (h : s.bounds? c o = some (first, last)) : c.low ≤ first ∧ last ≤ c.high := by
  have hrange {a b : Nat} (h : range? c a b = some (first, last)) : c.low ≤ first ∧ last ≤ c.high := by
    obtain ⟨⟨rfl, rfl⟩, hlow, -, hhigh⟩ := range?_eq_some_iff.mp h
    exact ⟨hlow, hhigh⟩
  cases s with
  | all =>
    cases h
    exact ⟨Nat.le_refl _, Nat.le_refl _⟩
  | point a => exact hrange h
  | range a b => exact hrange h
  | namedRange as bs =>
    simp only [Specifier.bounds?, Option.bind_eq_bind, Option.bind_eq_some_iff] at h
    obtain ⟨_, -, _, -, h⟩ := h
    exact hrange h

theorem ProgressionText.bounds {p : Progression} (h : ProgressionText c cs p) :
    c.low ≤ p.first ∧ p.last ≤ c.high := by
  obtain ⟨i, -, hp⟩ := h
  cases i with
  | plain s =>
    obtain ⟨first, last, hbounds, rfl⟩ := progression?_plain.mp hp
    exact bounds?_bounds hbounds
  | stepped s step =>
    obtain ⟨-, first, last, hbounds, rfl⟩ := progression?_stepped.mp hp
    exact bounds?_bounds hbounds
  | named name =>
    obtain ⟨n, hn, rfl⟩ := progression?_named.mp hp
    exact named?_bounds hn

/-! ## Fields in a row -/

theorem continues_of_isAlphanum {ch : Char} (h : ch.isAlphanum = true) : continues ch = false := by
  have hmark := (ne_of_isAlphanum h).2
  unfold continues
  rw [decide_eq_false_iff_not]
  exact fun hmem => hmark (List.mem_cons_of_mem _ (List.mem_cons_of_mem _ hmem))

theorem NoHead.append {p : Char → Bool} (hne : cs ≠ []) (h : NoHead p cs) (ds : List Char) :
    NoHead p (cs ++ ds) := by
  obtain ⟨ch, front, rfl⟩ := List.exists_cons_of_ne_nil hne
  exact .cons (h ch front rfl)

theorem NoHead.of_word (h : ∀ ch ∈ cs, ch.isAlphanum = true) : NoHead continues cs :=
  fun ch _ heq => continues_of_isAlphanum (h ch (heq ▸ List.mem_cons_self))

theorem SpecifierText.noHead {s : Specifier} (h : SpecifierText c cs s) : NoHead continues cs := by
  cases h with
  | star => exact .cons rfl
  | mark => exact .cons rfl
  | point hn => exact .of_word hn.isAlphanum
  | range ha hb => exact (NoHead.of_word ha.isAlphanum).append ha.isDigit.1 _
  | names ha hb => exact (NoHead.of_word ha.isAlphanum).append ha.1 _

theorem ItemText.noHead {i : Item} (h : ItemText c cs i) : NoHead continues cs := by
  cases h with
  | plain h => exact h.noHead
  | stepped h hstep => exact h.noHead.append h.ne_nil _
  | named h => exact .of_word h.isAlphanum

theorem noHead_of_fieldOf? (hcs : NoGap cs) {f : Field} (h : fieldOf? c cs = some f) :
    cs ≠ [] ∧ NoHead continues cs := by
  have htexts := (fieldOf?_eq_some_iff hcs).mp h
  cases hsplit : Text.splitOn ',' cs with
  | nil => exact absurd hsplit Text.splitOn_ne_nil
  | cons t ts =>
    rw [hsplit] at htexts
    cases htexts with
    | cons hp _ =>
      obtain ⟨i, hi, -⟩ := hp
      rw [← Text.joined_of_splitOn hsplit]
      unfold Text.joined
      exact ⟨List.append_ne_nil_of_left_ne_nil hi.ne_nil _, hi.noHead.append hi.ne_nil _⟩

theorem NoHead.reverse_append {p : Char → Bool} (hne : ds ≠ []) (h : NoHead p ds.reverse)
    (cs : List Char) : NoHead p (cs ++ ds).reverse := by
  rw [List.reverse_append]
  exact h.append (List.reverse_ne_nil_iff.mpr hne) _

theorem NoHead.of_reverse_word (h : ∀ ch ∈ cs, ch.isAlphanum = true) :
    NoHead continues cs.reverse :=
  .of_word fun ch hch => h ch (List.mem_reverse.mp hch)

theorem NoHead.of_word_behind {mark : Char} (hne : ds ≠ []) (h : ∀ ch ∈ ds, ch.isAlphanum = true)
    (cs : List Char) : NoHead continues (cs ++ mark :: ds).reverse := by
  rw [List.append_cons]
  exact (NoHead.of_reverse_word h).reverse_append hne _

theorem SpecifierText.noLast {s : Specifier} (h : SpecifierText c cs s) :
    NoHead continues cs.reverse := by
  cases h with
  | star => exact .cons rfl
  | mark => exact .cons rfl
  | point hn => exact .of_reverse_word hn.isAlphanum
  | range ha hb => exact .of_word_behind hb.isDigit.1 hb.isAlphanum _
  | names ha hb => exact .of_word_behind hb.1 hb.isAlphanum _

theorem ItemText.noLast {i : Item} (h : ItemText c cs i) : NoHead continues cs.reverse := by
  cases h with
  | plain h => exact h.noLast
  | stepped h hstep => exact .of_word_behind hstep.isDigit.1 hstep.isAlphanum _
  | named h => exact .of_reverse_word h.isAlphanum

theorem noLast_of_texts {t : List Char} {ts : List (List Char)} {f : Field}
    (h : List.Forall₂ (ProgressionText c) (t :: ts) f) :
    NoHead continues (Text.joined ',' t ts).reverse := by
  induction ts generalizing t f with
  | nil =>
    obtain - | ⟨⟨i, hi, -⟩, -⟩ := h
    simpa [Text.joined] using hi.noLast
  | cons u us ih =>
    obtain - | ⟨-, h⟩ := h
    have hne : Text.joined ',' u us ≠ [] := by
      obtain - | ⟨⟨i, hi, -⟩, -⟩ := h
      exact List.append_ne_nil_of_left_ne_nil hi.ne_nil _
    have hjoined : Text.joined ',' t (u :: us) = (t ++ [',']) ++ Text.joined ',' u us := by
      simp [Text.joined]
    rw [hjoined]
    exact (ih h).reverse_append hne _

theorem noLast_of_fieldOf? (hcs : NoGap cs) {f : Field} (h : fieldOf? c cs = some f) :
    NoHead continues cs.reverse := by
  have htexts := (fieldOf?_eq_some_iff hcs).mp h
  cases hsplit : Text.splitOn ',' cs with
  | nil => exact absurd hsplit Text.splitOn_ne_nil
  | cons t ts =>
    rw [← Text.joined_of_splitOn hsplit]
    exact noLast_of_texts (hsplit ▸ htexts)

theorem Ends.of_noHead (hne : cs ≠ []) (hcs : NoGap cs) (hhead : NoHead continues cs)
    (tail : List Char) :
    Ends (' ' :: (cs ++ tail)) ∧ skipGaps (' ' :: (cs ++ tail)) = cs ++ tail := by
  have hskip : skipGaps (' ' :: (cs ++ tail)) = cs ++ tail := skipGaps_append hne hcs tail
  have hstops {mark : Char} (hmark : continues mark = true) : Stops mark (' ' :: (cs ++ tail)) := by
    refine ⟨.cons (by decide), ?_⟩
    rw [hskip]
    exact (hhead.append hne tail).mono fun ch heq => by simpa using of_decide_eq_true heq ▸ hmark
  exact ⟨⟨hstops rfl, hstops rfl, hstops rfl⟩, hskip⟩

theorem Ends.of_field (hcs : NoGap cs) {f : Field} (h : fieldOf? c cs = some f)
    (tail : List Char) :
    Ends (' ' :: (cs ++ tail)) ∧ skipGaps (' ' :: (cs ++ tail)) = cs ++ tail := by
  obtain ⟨hne, hhead⟩ := noHead_of_fieldOf? hcs h
  exact Ends.of_noHead hne hcs hhead tail

end Cadence.Schedule
