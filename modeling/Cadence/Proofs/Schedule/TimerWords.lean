import Cadence.Proofs.Schedule.Blanks
import Cadence.Schedule.Timer

/-!
# Names as numbers

The timer puts numbers for the names of months and days wherever they stand, also in the middle of a
longer word. Blanks and marks are in no name, so that each piece and each item can be looked at
alone.
-/

namespace Cadence.Schedule.Timer

/-! ## Numbers for names -/

section Names

variable {names : List (String × String)} {d ch : Char} {cs : List Char}

theorem numbered_cons (h : ∀ y z rest, cs = y :: z :: rest →
      names.lookup (String.ofList [ch, y, z]) = none) :
    numbered names (ch :: cs) = ch :: numbered names cs := by
  match cs, h with
  | [], _ => rfl
  | [y], _ => rfl
  | y :: z :: rest, h =>
    rw [numbered]
    simp only [h y z rest rfl]

theorem mem_of_lookup {key n : String} (h : names.lookup key = some n) : (key, n) ∈ names := by
  obtain ⟨before, after, hlist, -⟩ := List.lookup_eq_some_iff.mp h
  rw [hlist]
  exact List.mem_append_right before List.mem_cons_self

theorem lookup_of_strange (hd : ∀ x ∈ names, d ∉ x.1.toList) {word : List Char} (hword : d ∈ word) :
    names.lookup (String.ofList word) = none := by
  cases h : names.lookup (String.ofList word) with
  | none => rfl
  | some n =>
    have hnot := hd _ (mem_of_lookup h)
    rw [String.toList_ofList] at hnot
    exact absurd hword hnot

theorem numbered_append (hd : ∀ x ∈ names, d ∉ x.1.toList) (a b : List Char) :
    numbered names (a ++ d :: b) = numbered names a ++ d :: numbered names b := by
  have hmark : numbered names (d :: b) = d :: numbered names b :=
    numbered_cons fun y z rest _ => lookup_of_strange hd (by simp)
  have hone (x : Char) : numbered names (x :: d :: b) = x :: d :: numbered names b := by
    rw [numbered_cons, hmark]
    rintro y z rest heq
    cases heq
    exact lookup_of_strange hd (by simp)
  fun_induction numbered names a with
  | case1 x y z rest n hlookup ih =>
    simp only [List.cons_append]
    rw [numbered]
    simp only [hlookup, ih, List.append_assoc]
  | case2 x y z rest hlookup ih =>
    simp only [List.cons_append] at ih ⊢
    rw [numbered]
    simp only [hlookup, ih]
  | case3 cs hshort =>
    match cs, hshort with
    | [], _ => exact hmark
    | [x], _ => exact hone x
    | [x, y], _ =>
      have htwo : numbered names (x :: y :: d :: b) = x :: numbered names (y :: d :: b) := by
        apply numbered_cons
        rintro _ _ rest heq
        cases heq
        exact lookup_of_strange hd (by simp)
      exact htwo.trans (congrArg (x :: ·) (hone y))
    | x :: y :: z :: rest, hshort => exact absurd rfl (hshort x y z rest)

theorem mem_numbered (h : ch ∈ numbered names cs) : ch ∈ cs ∨ ∃ x ∈ names, ch ∈ x.2.toList := by
  fun_induction numbered names cs with
  | case1 x y z rest n hlookup ih =>
    rcases List.mem_append.mp h with h | h
    · exact .inr ⟨_, mem_of_lookup hlookup, h⟩
    · exact (ih h).imp_left fun h => by simp [h]
  | case2 x y z rest hlookup ih =>
    rcases List.mem_cons.mp h with rfl | h
    · exact .inl List.mem_cons_self
    · exact (ih h).imp_left (List.mem_cons_of_mem x)
  | case3 cs hshort => exact .inl h

theorem numbered_ne_nil (hnames : ∀ x ∈ names, x.2.toList ≠ []) (hcs : cs ≠ []) :
    numbered names cs ≠ [] := by
  fun_cases numbered names cs with
  | case1 x y z rest n hlookup =>
    exact List.append_ne_nil_of_left_ne_nil (hnames _ (mem_of_lookup hlookup)) _
  | case2 x y z rest hlookup => exact List.cons_ne_nil _ _
  | case3 cs hshort => exact hcs

end Names

/-! ## A whole expression -/

/-- The characters in capitals with numbers for names. -/
def inNumbers (cs : List Char) : List Char :=
  numbered months (numbered weekdays (cs.map Text.upperChar))

/-- The character is as it is in capitals, and in no name. -/
structure IsPlain (ch : Char) : Prop where
  upper : Text.upperChar ch = ch
  strange : ch.isUpper = false

variable {ch d : Char} {cs p : List Char}

theorem IsPlain.not_mem (h : IsPlain d) : ∀ x ∈ weekdays ++ months, d ∉ x.1.toList := by
  have hupper : ∀ x ∈ weekdays ++ months, x.1.toList.all Char.isUpper = true := by decide
  intro x hx hmem
  have := List.all_eq_true.mp (hupper x hx) d hmem
  rw [h.strange] at this
  cases this

theorem inNumbers_append (hd : IsPlain d) (a b : List Char) :
    inNumbers (a ++ d :: b) = inNumbers a ++ d :: inNumbers b := by
  have hnot := hd.not_mem
  rw [List.forall_mem_append] at hnot
  unfold inNumbers
  rw [List.map_append, List.map_cons, hd.upper, numbered_append hnot.1, numbered_append hnot.2]

theorem mem_inNumbers (h : ch ∈ inNumbers cs) :
    (∃ d ∈ cs, Text.upperChar d = ch) ∨ ch.isDigit = true := by
  have hdigits : ∀ x ∈ weekdays ++ months, x.2.toList.all Char.isDigit = true := by decide
  rw [List.forall_mem_append] at hdigits
  unfold inNumbers at h
  rcases mem_numbered h with h | ⟨x, hx, h⟩
  · rcases mem_numbered h with h | ⟨x, hx, h⟩
    · exact .inl (List.mem_map.mp h)
    · exact .inr (List.all_eq_true.mp (hdigits.1 x hx) ch h)
  · exact .inr (List.all_eq_true.mp (hdigits.2 x hx) ch h)

theorem inNumbers_ne_nil (h : cs ≠ []) : inNumbers cs ≠ [] := by
  have hnames : ∀ x ∈ weekdays ++ months, x.2.toList ≠ [] := by decide
  rw [List.forall_mem_append] at hnames
  unfold inNumbers
  exact numbered_ne_nil hnames.2 (numbered_ne_nil hnames.1 (by simpa using h))

/-! ## Plain characters -/

theorem IsPlain.of_not_isAlpha (halpha : ch.isAlpha = false) (hch : ch ≠ '\u0131' ∧ ch ≠ '\u017f') :
    IsPlain ch where
  upper := by
    unfold Text.upperChar
    rw [if_neg hch.1, if_neg hch.2, Text.toUpper_of_not_isAlpha halpha]
  strange := by
    unfold Char.isAlpha at halpha
    exact (Bool.or_eq_false_iff.mp halpha).1

theorem IsPlain.of_isDigit (h : ch.isDigit = true) : IsPlain ch := by
  apply IsPlain.of_not_isAlpha (isAlpha_of_isDigit h)
  constructor <;> rintro rfl <;> cases h

theorem IsPlain.of_isBlank (h : Text.isBlank ch = true) : IsPlain ch := by
  apply IsPlain.of_not_isAlpha
  · have hword := not_isAlphanum_of_isBlank h
    unfold Char.isAlphanum at hword
    exact (Bool.or_eq_false_iff.mp hword).1
  · constructor <;> rintro rfl <;> cases h

theorem not_isBlank_of_isAlphanum (h : ch.isAlphanum = true) : Text.isBlank ch = false := by
  by_contra hblank
  have := not_isAlphanum_of_isBlank (by simpa using hblank)
  rw [h] at this
  cases this

theorem isBlank_upperChar (h : Text.isBlank ch = false) :
    Text.isBlank (Text.upperChar ch) = false := by
  unfold Text.upperChar
  split
  · rfl
  split
  · rfl
  cases halpha : ch.isAlpha with
  | true =>
    apply not_isBlank_of_isAlphanum
    unfold Char.isAlphanum Char.isAlpha
    simp [Text.isUpper_toUpper halpha]
  | false => rwa [Text.toUpper_of_not_isAlpha halpha]

/-! ## Pieces -/

theorem pieces_of_change {change : List Char → List Char} (hnil : change [] = [])
    (hblank : ∀ a d b, Text.isBlank d = true → change (a ++ d :: b) = change a ++ d :: change b)
    (hword : ∀ w, w ≠ [] → (∀ ch ∈ w, Text.isBlank ch = false) →
      change w ≠ [] ∧ ∀ ch ∈ change w, Text.isBlank ch = false) (cs : List Char) :
    Text.pieces (change cs) = (Text.pieces cs).map change := by
  have hblanks {bs : List Char} (hbs : ∀ d ∈ bs, Text.isBlank d = true) (cs : List Char) :
      change (bs ++ cs) = bs ++ change cs := by
    induction bs with
    | nil => rfl
    | cons d bs ih =>
      rw [List.forall_mem_cons] at hbs
      have hfront := hblank [] d (bs ++ cs) hbs.1
      rwa [hnil, ih hbs.2] at hfront
  generalize hps : Text.pieces cs = ps
  induction ps generalizing cs with
  | nil =>
    have hcs := Text.pieces_eq_nil_iff.mp hps
    have hsame := hblanks hcs []
    rw [List.append_nil, hnil, List.append_nil] at hsame
    rw [hsame, hps]
    rfl
  | cons p ps ih =>
    obtain ⟨bs, tail, rfl, hbs, htail, hrest⟩ := Text.of_pieces hps
    have hp : p ≠ [] ∧ ∀ ch ∈ p, Text.isBlank ch = false :=
      ⟨Text.pieces_ne_nil (hps ▸ List.mem_cons_self), Text.pieces_noBlank (hps ▸ List.mem_cons_self)⟩
    have hword := hword p hp.1 hp.2
    have hsplit : change (p ++ tail) = change p ++ change tail ∧
        ∀ d ∈ (change tail).head?, Text.isBlank d = true := by
      cases tail with
      | nil => simp [hnil]
      | cons d tail =>
        have hd := htail d rfl
        have hfront : change (d :: tail) = d :: change tail := by
          simpa [hnil] using hblank [] d tail hd
        simp [hblank p d tail hd, hfront, hd]
    rw [hblanks hbs, Text.pieces_blanks_append hbs, hsplit.1,
      Text.pieces_word_append hword.1 hword.2 hsplit.2, ih _ hrest, List.map_cons]

theorem pieces_inNumbers (cs : List Char) :
    Text.pieces (inNumbers cs) = (Text.pieces cs).map inNumbers := by
  apply pieces_of_change rfl
  · exact fun a d b hd => inNumbers_append (.of_isBlank hd) a b
  · intro w hne hw
    refine ⟨inNumbers_ne_nil hne, fun ch hch => ?_⟩
    rcases mem_inNumbers hch with ⟨d, hd, rfl⟩ | hdigit
    · exact isBlank_upperChar (hw d hd)
    · exact not_isBlank_of_isAlphanum (Text.isAlphanum_of_isDigit hdigit)

theorem pieces_upper (cs : List Char) :
    Text.pieces (cs.map Text.upperChar) = (Text.pieces cs).map (·.map Text.upperChar) := by
  apply pieces_of_change rfl
  · intro a d b hd
    rw [List.map_append, List.map_cons, (IsPlain.of_isBlank hd).upper]
  · intro w hne hw
    refine ⟨by simpa using hne, fun ch hch => ?_⟩
    obtain ⟨d, hd, rfl⟩ := List.mem_map.mp hch
    exact isBlank_upperChar (hw d hd)

end Cadence.Schedule.Timer
