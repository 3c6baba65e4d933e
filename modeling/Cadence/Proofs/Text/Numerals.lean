import Cadence.Number.Binary64
import Cadence.Proofs.Json.Text
import Cadence.Proofs.Text.Digits
import Mathlib.Data.List.TakeWhile

/-!
# Numerals that are written as they were read

A number is written with no plus sign and no zeros in front, and zero without a minus sign. Texts of
any other form are read as numbers, too, and come out as others.
-/

namespace Cadence.Text

def HasSpareZero (cs : List Char) : Prop := ∃ c ds, cs = '0' :: c :: ds

/-- A sign or zeros that the number is not written with. -/
def IsOverspelled (cs : List Char) : Prop :=
  (∃ ds, cs = '+' :: ds) ∨ cs = ['-', '0'] ∨ HasSpareZero cs ∨
    ∃ ds, cs = '-' :: ds ∧ HasSpareZero ds

variable {ds : List Char} {m : Nat}

theorem natOf?_eq_some_iff :
    natOf? ds = some m ↔ isNumeral ds = true ∧ Nat.ofDigitChars 10 ds 0 = m := by
  unfold natOf?
  rw [Option.ite_none_right_eq_some, Option.some.injEq]

theorem digits_eq (h : natOf? ds = some m) :
    ds = List.replicate (ds.length - (Nat.toDigits 10 m).length) '0' ++ Nat.toDigits 10 m := by
  obtain ⟨hne, hdigits⟩ := digits_of_natOf? h
  obtain ⟨-, rfl⟩ := natOf?_eq_some_iff.mp h
  have hpadded {c : Char} (hc : c ∈ (padded ds.length (Nat.ofDigitChars 10 ds 0)).toList) :
      c.isDigit = true :=
    isDigit_of_mem_padded hc
  have hlength := length_padded (List.length_pos_iff.mpr hne) (ofDigitChars_lt hdigits)
  have hvalue := ofDigitChars_padded ds.length (Nat.ofDigitChars 10 ds 0)
  rw [← toList_padded]
  -- Of two texts of one length and one value neither is less than the other.
  have hle := lt_or_eq_of_ofDigitChars_le hdigits (fun _ => hpadded) hlength.symm
    (Nat.le_of_eq hvalue.symm)
  have hge := lt_or_eq_of_ofDigitChars_le (fun _ => hpadded) hdigits hlength
    (Nat.le_of_eq hvalue)
  rcases hle with hlt | heq
  · rcases hge with hgt | heq
    · exact absurd (List.lt_trans hlt hgt) (List.lt_irrefl _)
    · exact heq.symm
  · exact heq

theorem not_hasSpareZero_toDigits (m : Nat) : ¬ HasSpareZero (Nat.toDigits 10 m) := by
  rintro ⟨c, ds, hds⟩
  have hnone := Json.no_leading_zero m
  rw [hds] at hnone
  simp at hnone

theorem toDigits_eq_iff (h : natOf? ds = some m) : Nat.toDigits 10 m = ds ↔ ¬ HasSpareZero ds := by
  constructor
  · rintro rfl
    exact not_hasSpareZero_toDigits m
  · intro hspare
    have hds := digits_eq h
    cases hzeros : ds.length - (Nat.toDigits 10 m).length with
    | zero =>
      rw [hzeros] at hds
      exact hds.symm
    | succ k =>
      obtain ⟨c, cs, hcs⟩ := List.exists_cons_of_ne_nil (Nat.toDigits_ne_nil (n := m) (b := 10))
      refine absurd ?_ hspare
      rw [hzeros, hcs, List.replicate_succ] at hds
      cases k with
      | zero => exact ⟨c, cs, hds⟩
      | succ k => exact ⟨'0', _, hds⟩

/-! ## With a sign -/

theorem toList_toString_natCast (m : Nat) : (toString (m : Int)).toList = Nat.toDigits 10 m :=
  Nat.toList_repr

theorem toList_toString_neg (hpos : 0 < m) :
    (toString (-(m : Int))).toList = '-' :: Nat.toDigits 10 m := by
  obtain ⟨k, rfl⟩ := Nat.exists_eq_succ_of_ne_zero (Nat.ne_of_gt hpos)
  have hneg : toString (-((k.succ : Nat) : Int)) = "-" ++ Nat.repr k.succ := rfl
  rw [hneg, String.toList_append, Nat.toList_repr]
  rfl

theorem toDigits_ne_cons {c : Char} (hc : c.isDigit = false) (cs : List Char) :
    Nat.toDigits 10 m ≠ c :: cs := by
  intro heq
  have hdigit := Nat.isDigit_of_mem_toDigits (by decide) (by decide) (heq ▸ List.mem_cons_self)
  rw [hc] at hdigit
  cases hdigit

theorem signed?_cases {low high n : Int} {cs : List Char} (h : signed? low high cs = some n) :
    (∃ ds m, cs = '+' :: ds ∧ natOf? ds = some m ∧ n = m) ∨
      (∃ ds m, cs = '-' :: ds ∧ natOf? ds = some m ∧ n = -m) ∨
      (∀ ds, cs ≠ '+' :: ds ∧ cs ≠ '-' :: ds) ∧ ∃ m : Nat, natOf? cs = some m ∧ n = m := by
  unfold signed? at h
  have hn := Option.filter_eq_some_iff.mp h
  split at hn
  · obtain ⟨m, hm, rfl⟩ := Option.map_eq_some_iff.mp hn.1
    exact .inl ⟨_, m, rfl, hm, rfl⟩
  · obtain ⟨m, hm, rfl⟩ := Option.map_eq_some_iff.mp hn.1
    exact .inr (.inl ⟨_, m, rfl, hm, rfl⟩)
  · rename_i hplus hminus
    obtain ⟨m, hm, rfl⟩ := Option.map_eq_some_iff.mp hn.1
    exact .inr (.inr ⟨fun ds => ⟨hplus ds, hminus ds⟩, m, hm, rfl⟩)

theorem toString_eq_iff {low high n : Int} {cs : List Char} (h : signed? low high cs = some n) :
    (toString n).toList = cs ↔ ¬ IsOverspelled cs := by
  unfold IsOverspelled
  rcases signed?_cases h with ⟨ds, m, rfl, -, rfl⟩ | ⟨ds, m, rfl, hm, rfl⟩ | ⟨hsign, m, hm, rfl⟩
  · refine iff_of_false (fun heq => ?_) (not_not_intro (.inl ⟨ds, rfl⟩))
    rw [toList_toString_natCast] at heq
    exact toDigits_ne_cons (by decide) ds heq
  · rcases Nat.eq_zero_or_pos m with rfl | hpos
    · -- Zero has no sign, whatever the zeros behind it.
      refine iff_of_false (toDigits_ne_cons (m := 0) (by decide) ds) (not_not_intro ?_)
      by_cases hspare : HasSpareZero ds
      · exact .inr (.inr (.inr ⟨ds, rfl, hspare⟩))
      · rw [← (toDigits_eq_iff hm).mpr hspare]
        exact .inr (.inl rfl)
    · have hzero : ds ≠ ['0'] := by
        rintro rfl
        cases hm
        exact absurd hpos (by decide)
      rw [toList_toString_neg hpos, List.cons.injEq, toDigits_eq_iff hm]
      simp [HasSpareZero, hzero]
  · have hzero : cs ≠ ['-', '0'] := (hsign ['0']).2
    rw [toList_toString_natCast, toDigits_eq_iff hm]
    simp [hzero, hsign]

/-! ## Characters of numbers -/

/-- A character of a number or of a word. -/
def IsWordChar (c : Char) : Prop := c.isAlphanum = true ∨ c ∈ ['+', '-', '.']

instance (c : Char) : Decidable (IsWordChar c) := inferInstanceAs (Decidable (_ ∨ _))

variable {cs : List Char} {c : Char}

theorem IsWordChar.of_isAlpha (h : c.isAlpha = true) : IsWordChar c :=
  .inl (isAlphanum_of_isAlpha h)

theorem IsWordChar.of_isDigit (h : c.isDigit = true) : IsWordChar c :=
  .inl (isAlphanum_of_isDigit h)

theorem isWordChar_of_natOf? (h : natOf? cs = some m) : ∀ c ∈ cs, IsWordChar c :=
  fun c hc => .of_isDigit ((digits_of_natOf? h).2 c hc)

theorem isWordChar_of_toLower {word : String} (hword : word.toList.all Char.isAlpha = true)
    (h : cs.map Char.toLower = word.toList) : ∀ c ∈ cs, IsWordChar c := by
  intro c hc
  have hletter := List.all_eq_true.mp hword c.toLower (h ▸ List.mem_map_of_mem hc)
  exact .of_isAlpha (isAlpha_of_toLower hletter)

theorem isWordChar_of_signed? {low high n : Int} (h : signed? low high cs = some n) :
    ∀ c ∈ cs, IsWordChar c := by
  rcases signed?_cases h with ⟨ds, m, rfl, hm, -⟩ | ⟨ds, m, rfl, hm, -⟩ | ⟨-, m, hm, -⟩
  · exact List.forall_mem_cons.mpr ⟨.inr (by decide), isWordChar_of_natOf? hm⟩
  · exact List.forall_mem_cons.mpr ⟨.inr (by decide), isWordChar_of_natOf? hm⟩
  · exact isWordChar_of_natOf? hm

theorem isWordChar_of_exponentOf? {e : Int} (h : Number.Binary64.exponentOf? cs = some e) :
    ∀ c ∈ cs, IsWordChar c := by
  unfold Number.Binary64.exponentOf? at h
  split at h
  · exact List.forall_mem_nil _
  · obtain ⟨hletter, hrest⟩ := Option.ite_none_right_eq_some.mp h
    refine List.forall_mem_cons.mpr ⟨.of_isAlpha (by rcases hletter with rfl | rfl <;> rfl), ?_⟩
    split at hrest <;> obtain ⟨m, hm, -⟩ := Option.map_eq_some_iff.mp hrest
    · exact List.forall_mem_cons.mpr ⟨.inr (by decide), isWordChar_of_natOf? hm⟩
    · exact List.forall_mem_cons.mpr ⟨.inr (by decide), isWordChar_of_natOf? hm⟩
    · exact isWordChar_of_natOf? hm

theorem isWordChar_of_spanDigits (h : ∀ c ∈ (spanDigits cs).2, IsWordChar c) :
    ∀ c ∈ cs, IsWordChar c := by
  have happend : (spanDigits cs).1 ++ (spanDigits cs).2 = cs := List.takeWhile_append_dropWhile
  rw [← happend, List.forall_mem_append]
  exact ⟨fun c hc => .of_isDigit (List.mem_takeWhile_imp hc), h⟩

theorem isWordChar_of_ofUnsignedText? {negative : Bool} {x : Number.Binary64}
    (h : Number.Binary64.ofUnsignedText? negative cs = some x) : ∀ c ∈ cs, IsWordChar c := by
  unfold Number.Binary64.ofUnsignedText? at h
  simp only [String.ext_iff, String.toList_ofList] at h
  split at h
  · rename_i hword
    exact hword.elim (isWordChar_of_toLower (by decide)) (isWordChar_of_toLower (by decide))
  split at h
  · rename_i hword
    exact isWordChar_of_toLower (by decide) hword
  obtain ⟨e, he, -⟩ := Option.map_eq_some_iff.mp (Option.ite_none_left_eq_some.mp h).2
  refine isWordChar_of_spanDigits ?_
  split at he
  · rename_i rest hpoint
    rw [hpoint]
    exact List.forall_mem_cons.mpr
      ⟨.inr (by decide), isWordChar_of_spanDigits (isWordChar_of_exponentOf? he)⟩
  · exact isWordChar_of_exponentOf? he

theorem isWordChar_of_ofText? {x : Number.Binary64} (h : Number.Binary64.ofText? cs = some x) :
    ∀ c ∈ cs, IsWordChar c := by
  unfold Number.Binary64.ofText? at h
  split at h
  · exact List.forall_mem_cons.mpr ⟨.inr (by decide), isWordChar_of_ofUnsignedText? h⟩
  · exact List.forall_mem_cons.mpr ⟨.inr (by decide), isWordChar_of_ofUnsignedText? h⟩
  · exact isWordChar_of_ofUnsignedText? h

end Cadence.Text
