import Cadence.Proofs.Text.Chars
import Cadence.Text.Basic
import Cadence.Text.Digits
import Mathlib.Algebra.Group.Nat.Defs

/-!
# Numbers of a width
-/

namespace Cadence.Text

theorem toNat_of_isDigit {c : Char} (h : c.isDigit = true) : 48 ≤ c.toNat ∧ c.toNat ≤ 57 := by
  simp only [Char.isDigit, Bool.and_eq_true, decide_eq_true_eq, ge_iff_le,
    UInt32.le_iff_toNat_le] at h
  exact h

theorem digits_of_natOf? {cs : List Char} {n : Nat} (h : natOf? cs = some n) :
    cs ≠ [] ∧ ∀ c ∈ cs, c.isDigit = true := by
  unfold natOf? isNumeral at h
  simpa using (Option.ite_none_right_eq_some.mp h).1

theorem toList_padded (width n : Nat) :
    (padded width n).toList =
      List.replicate (width - (Nat.toDigits 10 n).length) '0' ++ Nat.toDigits 10 n :=
  String.toList_ofList

theorem isDigit_of_mem_padded {width n : Nat} {c : Char} (h : c ∈ (padded width n).toList) :
    c.isDigit = true := by
  rw [toList_padded, List.mem_append] at h
  rcases h with h | h
  · rw [List.eq_of_mem_replicate h]
    rfl
  · exact Nat.isDigit_of_mem_toDigits (by decide) (by decide) h

theorem padded_ne_nil (width n : Nat) : (padded width n).toList ≠ [] := by
  rw [toList_padded]
  exact List.append_ne_nil_of_right_ne_nil _ Nat.toDigits_ne_nil

theorem length_padded {width n : Nat} (hwidth : 0 < width) (hn : n < 10 ^ width) :
    (padded width n).toList.length = width := by
  have hlength := (Nat.length_toDigits_le_iff (by decide) hwidth).mpr hn
  rw [toList_padded, List.length_append, List.length_replicate]
  omega

theorem utf8ByteSize_padded {width n : Nat} (hwidth : 0 < width) (hn : n < 10 ^ width) :
    (padded width n).utf8ByteSize = width := by
  have hdigits : ∀ c ∈ (padded width n).toList, c.toNat ≤ 127 := fun c hc =>
    Nat.le_trans (toNat_of_isDigit (isDigit_of_mem_padded hc)).2 (by decide)
  rw [← String.ofList_toList (s := padded width n), utf8ByteSize_of_ascii hdigits,
    length_padded hwidth hn]

theorem ofDigitChars_padded (width n : Nat) :
    Nat.ofDigitChars 10 (padded width n).toList 0 = n := by
  rw [toList_padded, Nat.ofDigitChars_append, Nat.ofDigitChars_replicate_zero]
  simp

theorem padded_inj {width m n : Nat} (h : padded width m = padded width n) : m = n := by
  rw [← ofDigitChars_padded width m, h, ofDigitChars_padded]

theorem isBlank_of_isDigit {c : Char} (h : c.isDigit = true) : isBlank c = false := by
  have hrange := toNat_of_isDigit h
  simp only [isBlank, Bool.or_eq_false_iff, Bool.and_eq_false_iff, decide_eq_false_iff_not,
    beq_eq_false_iff_ne, ne_eq]
  omega

theorem trimStart_padded (width n : Nat) (rest : List Char) :
    trimStart ((padded width n).toList ++ rest) = (padded width n).toList ++ rest := by
  obtain ⟨c, cs, hcs⟩ := List.exists_cons_of_ne_nil (padded_ne_nil width n)
  have hc : isBlank c = false :=
    isBlank_of_isDigit (isDigit_of_mem_padded (hcs ▸ List.mem_cons_self))
  unfold trimStart
  rw [hcs, List.cons_append, List.dropWhile_cons, hc]
  rfl

theorem padded_append_ne_cons {width n : Nat} {mark : Char} (hmark : mark.isDigit = false)
    (rest cs : List Char) : (padded width n).toList ++ rest ≠ mark :: cs := by
  obtain ⟨c, ds, hds⟩ := List.exists_cons_of_ne_nil (padded_ne_nil width n)
  have hc : c.isDigit = true := isDigit_of_mem_padded (hds ▸ List.mem_cons_self)
  rw [hds, List.cons_append]
  intro heq
  rw [(List.cons.inj heq).1, hmark] at hc
  cases hc

theorem spanDigits_append {ds : List Char} (hds : ∀ c ∈ ds, c.isDigit = true) {c : Char}
    (hc : c.isDigit = false) (rest : List Char) :
    spanDigits (ds ++ c :: rest) = (ds, c :: rest) := by
  unfold spanDigits
  rw [List.takeWhile_append_of_pos hds, List.dropWhile_append_of_pos hds]
  simp [hc]

/-! ## Order -/

theorem append_lt_append {as bs : List Char} (h : as < bs) (hlength : as.length = bs.length)
    (xs ys : List Char) : as ++ xs < bs ++ ys := by
  induction as generalizing bs with
  | nil =>
    rw [List.eq_nil_of_length_eq_zero hlength.symm] at h
    exact absurd h (List.not_lt_nil _)
  | cons a as ih =>
    cases bs with
    | nil => exact absurd h (List.not_lt_nil _)
    | cons b bs =>
      rw [List.cons_append, List.cons_append, List.cons_lt_cons_iff]
      rcases List.cons_lt_cons_iff.mp h with hhead | ⟨rfl, htail⟩
      · exact .inl hhead
      · exact .inr ⟨rfl, ih htail (Nat.succ.inj hlength)⟩

theorem ofDigitChars_cons_eq {d : Char} (hd : d.isDigit = true) (ds : List Char) :
    Nat.ofDigitChars 10 (d :: ds) 0 =
      10 ^ ds.length * (d.toNat - 48) + Nat.ofDigitChars 10 ds 0 ∧ d.toNat - 48 < 10 ∧
        48 ≤ d.toNat := by
  have hrange := toNat_of_isDigit hd
  have hzero : '0'.toNat = 48 := rfl
  rw [Nat.ofDigitChars_cons, Nat.ofDigitChars_eq_ofDigitChars_zero, Nat.mul_zero, Nat.zero_add, hzero]
  exact ⟨rfl, by omega, hrange.1⟩

theorem ofDigitChars_lt {ds : List Char} (hds : ∀ c ∈ ds, c.isDigit = true) :
    Nat.ofDigitChars 10 ds 0 < 10 ^ ds.length := by
  induction ds with
  | nil => exact Nat.one_pos
  | cons d ds ih =>
    rw [List.forall_mem_cons] at hds
    obtain ⟨hvalue, hd, -⟩ := ofDigitChars_cons_eq hds.1 ds
    have hrest := ih hds.2
    have hhead : 10 ^ ds.length * (d.toNat - 48) ≤ 10 ^ ds.length * 9 :=
      Nat.mul_le_mul_left _ (by omega)
    rw [hvalue, List.length_cons, Nat.pow_succ]
    omega

theorem lt_or_eq_of_mul_add_le {p a b x y : Nat} (hy : y < p) (h : p * a + x ≤ p * b + y) :
    a < b ∨ a = b ∧ x ≤ y := by
  rcases Nat.lt_trichotomy a b with hlt | rfl | hgt
  · exact .inl hlt
  · exact .inr ⟨rfl, by omega⟩
  · have hmul : p * (b + 1) ≤ p * a := Nat.mul_le_mul_left p hgt
    rw [Nat.mul_succ] at hmul
    omega

theorem lt_or_eq_of_ofDigitChars_le {as bs : List Char} (has : ∀ c ∈ as, c.isDigit = true)
    (hbs : ∀ c ∈ bs, c.isDigit = true) (hlength : as.length = bs.length)
    (h : Nat.ofDigitChars 10 as 0 ≤ Nat.ofDigitChars 10 bs 0) : as < bs ∨ as = bs := by
  induction as generalizing bs with
  | nil => exact .inr (List.eq_nil_of_length_eq_zero hlength.symm).symm
  | cons a as ih =>
    cases bs with
    | nil => cases hlength
    | cons b bs =>
      rw [List.forall_mem_cons] at has hbs
      have hlength' : as.length = bs.length := Nat.succ.inj hlength
      obtain ⟨hvalue, -, ha⟩ := ofDigitChars_cons_eq has.1 as
      obtain ⟨hvalue', -, hb⟩ := ofDigitChars_cons_eq hbs.1 bs
      rw [hvalue, hvalue', hlength'] at h
      rw [List.cons_lt_cons_iff, List.cons.injEq]
      rcases lt_or_eq_of_mul_add_le (ofDigitChars_lt hbs.2) h with hlt | ⟨heq, hrest⟩
      · exact .inl (.inl (show a.toNat < b.toNat by omega))
      · obtain rfl : a = b := Char.toNat_inj.mp (by omega)
        rcases ih has.2 hbs.2 hlength' hrest with hless | rfl
        · exact .inl (.inr ⟨rfl, hless⟩)
        · exact .inr ⟨rfl, rfl⟩

theorem padded_lt {width n m : Nat} (hwidth : 0 < width) (h : n < m) (hm : m < 10 ^ width) :
    (padded width n).toList < (padded width m).toList := by
  have hn : n < 10 ^ width := Nat.lt_trans h hm
  have hvalues : Nat.ofDigitChars 10 (padded width n).toList 0 ≤
      Nat.ofDigitChars 10 (padded width m).toList 0 := by
    rw [ofDigitChars_padded, ofDigitChars_padded]
    exact Nat.le_of_lt h
  have hlength : (padded width n).toList.length = (padded width m).toList.length := by
    rw [length_padded hwidth hn, length_padded hwidth hm]
  have hle := lt_or_eq_of_ofDigitChars_le (fun _ => isDigit_of_mem_padded)
    (fun _ => isDigit_of_mem_padded) hlength hvalues
  refine hle.resolve_right fun heq => ?_
  have hvalue := congrArg (Nat.ofDigitChars 10 · 0) heq
  simp only [ofDigitChars_padded] at hvalue
  omega

theorem padded_append {v w m n : Nat} (hv : 0 < v) (hw : 0 < w) (hm : m < 10 ^ v)
    (hn : n < 10 ^ w) : padded v m ++ padded w n = padded (v + w) (m * 10 ^ w + n) := by
  have hvalue : m * 10 ^ w + n < 10 ^ (v + w) := by
    have hmul : (m + 1) * 10 ^ w ≤ 10 ^ v * 10 ^ w := Nat.mul_le_mul_right _ hm
    rw [Nat.pow_add]
    rw [Nat.succ_mul] at hmul
    omega
  have hdigits : ∀ c ∈ (padded v m).toList ++ (padded w n).toList, c.isDigit = true := by
    intro c hc
    rcases List.mem_append.mp hc with hc | hc <;> exact isDigit_of_mem_padded hc
  have hlength : ((padded v m).toList ++ (padded w n).toList).length =
      (padded (v + w) (m * 10 ^ w + n)).toList.length := by
    rw [List.length_append, length_padded hv hm, length_padded hw hn,
      length_padded (by omega) hvalue]
  have hsame : Nat.ofDigitChars 10 ((padded v m).toList ++ (padded w n).toList) 0 =
      Nat.ofDigitChars 10 (padded (v + w) (m * 10 ^ w + n)).toList 0 := by
    rw [Nat.ofDigitChars_append, Nat.ofDigitChars_eq_ofDigitChars_zero, ofDigitChars_padded,
      ofDigitChars_padded, ofDigitChars_padded, length_padded hw hn, Nat.mul_comm]
  rw [← String.toList_inj, String.toList_append]
  rcases lt_or_eq_of_ofDigitChars_le hdigits (fun _ => isDigit_of_mem_padded) hlength
    (Nat.le_of_eq hsame) with hlt | heq
  · rcases lt_or_eq_of_ofDigitChars_le (fun _ => isDigit_of_mem_padded) hdigits hlength.symm
      (Nat.le_of_eq hsame.symm) with hgt | heq
    · exact absurd hlt (List.lt_asymm hgt)
    · exact heq.symm
  · exact heq

end Cadence.Text
