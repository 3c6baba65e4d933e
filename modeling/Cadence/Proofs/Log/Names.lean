import Cadence.Log.Rotation
import Cadence.Proofs.Text.Split
import Cadence.Proofs.Time.Compact
import Mathlib.Data.String.Basic

/-!
# Names of the files set aside

The names of the files that are set aside are ordered as the files are, and none of them is the name
of the log file.
-/

namespace Cadence.LogFolder

open Stamp Text

/-- What the name of a file set aside tells of its rotation. -/
def stampOf (now : Instant) (sequence : Nat) : String :=
  writeCompact now ++ "_" ++ padded 4 (sequence % 10000)

/-- The extension of a name with the point in front. -/
def extensionOf (name : String) : String :=
  match (nameParts name).2 with
  | some extension => "." ++ extension
  | none => ""

/-- A name that begins as those of the files set aside. -/
def stamped (name : String) (now : Instant) (sequence : Nat) (tail : String) : String :=
  (nameParts name).1 ++ "." ++ stampOf now sequence ++ tail

/-- An entry that is taken for a file set aside. -/
def isRotation (name n : String) : Bool :=
  n != name && ((nameParts name).1 ++ ".").toList.isPrefixOf n.toList

theorem rotations_eq (d : LogFolder) (name : String) :
    d.rotations name = d.names.filter (isRotation name) := rfl

theorem rotatedName_eq (name : String) (now : Instant) (sequence : Nat) :
    rotatedName name now sequence = stamped name now sequence (extensionOf name) := by
  unfold rotatedName stamped stampOf extensionOf
  cases h : (nameParts name).2 <;> simp [String.append_assoc, h]

theorem rotatedName_append (name : String) (now : Instant) (sequence : Nat) (x : String) :
    rotatedName name now sequence ++ x = stamped name now sequence (extensionOf name ++ x) := by
  rw [rotatedName_eq]
  unfold stamped
  rw [String.append_assoc]

theorem name_eq (name : String) : name = (nameParts name).1 ++ extensionOf name := by
  unfold extensionOf nameParts
  split
  · rename_i c stem extension hcut
    have hname := eq_of_cutLast? hcut
    rw [← String.toList_inj, String.toList_append]
    simp [hname]
  · simp

/-! ## What the names are taken for -/

theorem isRotation_self (name : String) : isRotation name name = false := by
  simp [isRotation]

theorem isRotation_stamped (name : String) (now : Instant) (sequence : Nat) (rest : String) :
    isRotation name (stamped name now sequence (extensionOf name ++ rest)) = true := by
  have hne : stamped name now sequence (extensionOf name ++ rest) ≠ name := by
    intro heq
    have hlength := congrArg (fun n => n.toList.length) (heq.trans (name_eq name))
    simp only [stamped, String.toList_append, List.length_append] at hlength
    have hpoint : ".".toList.length = 1 := rfl
    omega
  unfold isRotation
  rw [Bool.and_eq_true, bne_iff_ne, List.isPrefixOf_iff_prefix]
  refine ⟨hne, ?_⟩
  unfold stamped
  rw [String.toList_append (s := _ ++ stampOf now sequence),
    String.toList_append (t := stampOf now sequence), List.append_assoc]
  exact List.prefix_append _ _

theorem isRotation_rotatedName (name : String) (now : Instant) (sequence : Nat) (x : String) :
    isRotation name (rotatedName name now sequence ++ x) = true := by
  rw [rotatedName_append]
  exact isRotation_stamped name now sequence x

/-! ## The sizes of the names -/

variable {s t : Instant} {m n : Nat}

theorem utf8ByteSize_stampOf (ht : t.HasFourDigitYear) (n : Nat) :
    (stampOf t n).utf8ByteSize = 23 := by
  have hdate := utf8ByteSize_padded (by decide) ht.dateNumber_lt
  have htime := utf8ByteSize_padded (by decide) t.timeNumber_lt
  have hsequence : (padded 4 (n % 10000)).utf8ByteSize = 4 :=
    utf8ByteSize_padded (by decide) (Nat.mod_lt n (by decide))
  have hmark : "_".utf8ByteSize = 1 := rfl
  unfold stampOf
  simp only [writeCompact_eq ht, String.utf8ByteSize_append, hdate, htime, hsequence, hmark]

theorem utf8ByteSize_rotatedName (ht : t.HasFourDigitYear) (name : String) (n : Nat) :
    (rotatedName name t n).utf8ByteSize = name.utf8ByteSize + 24 := by
  have hname := congrArg String.utf8ByteSize (name_eq name)
  have hpoint : ".".utf8ByteSize = 1 := rfl
  rw [rotatedName_eq]
  unfold stamped
  simp only [String.utf8ByteSize_append, utf8ByteSize_stampOf ht, hpoint] at hname ⊢
  omega

theorem isName_rotatedName (ht : t.HasFourDigitYear) {name x : String}
    (hname : name.utf8ByteSize + 24 + x.utf8ByteSize ≤ 255) (n : Nat) :
    isName (rotatedName name t n ++ x) = true := by
  have hsize := utf8ByteSize_rotatedName ht name n
  have hne : rotatedName name t n ++ x ≠ "" := by
    intro heq
    have hzero := congrArg String.utf8ByteSize heq
    rw [String.utf8ByteSize_append, hsize, String.utf8ByteSize_empty] at hzero
    omega
  unfold isName
  rw [Bool.and_eq_true, Bool.not_eq_true', String.isEmpty_eq_false_iff, decide_eq_true_eq,
    String.utf8ByteSize_append, hsize]
  exact ⟨hne, hname⟩

/-! ## The order of the names -/

theorem toList_marked (a b c : String) :
    (a ++ "_" ++ b ++ "_" ++ c).toList = a.toList ++ '_' :: (b.toList ++ '_' :: c.toList) := by
  have hmark : "_".toList = ['_'] := rfl
  simp only [String.toList_append, List.append_assoc, hmark, List.cons_append, List.nil_append]

theorem toList_stampOf (ht : t.HasFourDigitYear) (n : Nat) :
    (stampOf t n).toList = (padded 8 t.dateNumber).toList ++
      '_' :: ((padded 9 t.timeNumber).toList ++ '_' :: (padded 4 (n % 10000)).toList) := by
  unfold stampOf
  rw [writeCompact_eq ht, toList_marked]

theorem length_stampOf (ht : t.HasFourDigitYear) (n : Nat) : (stampOf t n).toList.length = 23 := by
  have hdate := length_padded (by decide) ht.dateNumber_lt
  have htime := length_padded (by decide) t.timeNumber_lt
  have hsequence : (padded 4 (n % 10000)).toList.length = 4 :=
    length_padded (by decide) (Nat.mod_lt n (by decide))
  rw [toList_stampOf ht, List.length_append, List.length_cons, List.length_append, List.length_cons,
    hdate, htime, hsequence]

theorem stampOf_lt (hs : s.HasFourDigitYear) (ht : t.HasFourDigitYear) (hst : s ≤ t) (hmn : m < n)
    (hn : n < 10000) : (stampOf s m).toList < (stampOf t n).toList := by
  have hlength {u : Instant} (hu : u.HasFourDigitYear) := length_padded (by decide) hu.dateNumber_lt
  have hsequence : (padded 4 (m % 10000)).toList < (padded 4 (n % 10000)).toList := by
    rw [Nat.mod_eq_of_lt hn, Nat.mod_eq_of_lt (hmn.trans hn)]
    exact padded_lt (by decide) hmn hn
  rw [toList_stampOf hs, toList_stampOf ht]
  rcases numbers_of_le hs hst with hdate | ⟨hdate, htime⟩
  · exact append_lt_append (padded_lt (by decide) hdate ht.dateNumber_lt)
      ((hlength hs).trans (hlength ht).symm) _ _
  · rw [hdate]
    refine List.append_left_lt (List.cons_lt_cons_iff.mpr (.inr ⟨rfl, ?_⟩))
    rcases Nat.lt_or_eq_of_le htime with htime | htime
    · exact append_lt_append (padded_lt (by decide) htime t.timeNumber_lt)
        ((length_padded (by decide) s.timeNumber_lt).trans
          (length_padded (by decide) t.timeNumber_lt).symm) _ _
    · rw [htime]
      exact List.append_left_lt (List.cons_lt_cons_iff.mpr (.inr ⟨rfl, hsequence⟩))

/-- The name of a later rotation is greater, whatever the names end in. -/
theorem stamped_lt (hs : s.HasFourDigitYear) (ht : t.HasFourDigitYear) (hst : s ≤ t) (hmn : m < n)
    (hn : n < 10000) (name x y : String) : stamped name s m x < stamped name t n y := by
  rw [String.lt_iff_toList_lt]
  unfold stamped
  simp only [String.toList_append, List.append_assoc]
  have hlength : (stampOf s m).toList.length = (stampOf t n).toList.length := by
    rw [length_stampOf hs, length_stampOf ht]
  exact List.append_left_lt (List.append_left_lt
    (append_lt_append (stampOf_lt hs ht hst hmn hn) hlength _ _))

/-! ## Names that differ -/

/-- What stands behind the name under which a file is set aside, once it is compressed or not. -/
def IsPackMark (x : String) : Prop := x = "" ∨ x = ".gz"

theorem toList_extensionOf (name : String) :
    (extensionOf name).toList = [] ∨
      ∃ e, '.' ∉ e ∧ (extensionOf name).toList = '.' :: e := by
  unfold extensionOf nameParts
  split
  · rename_i extension hparts
    split at hparts
    · rename_i c stem e hcut
      obtain rfl : String.ofList e = extension := Option.some.inj hparts
      refine .inr ⟨e, not_mem_of_cutLast? hcut, ?_⟩
      simp
    · cases hparts
  · exact .inl rfl

theorem toList_rotatedName (name : String) (t : Instant) (n : Nat) :
    ∃ front, (rotatedName name t n).toList =
      front ++ (padded 4 (n % 10000)).toList ++ (extensionOf name).toList := by
  refine ⟨((nameParts name).1 ++ "." ++ writeCompact t ++ "_").toList, ?_⟩
  rw [rotatedName_eq]
  unfold stamped stampOf
  simp only [String.toList_append, List.append_assoc]

theorem append_extension_ne {front digits E : List Char}
    (hdigits : digits ≠ [] ∧ ∀ c ∈ digits, c.isDigit = true)
    (hE : E = [] ∨ ∃ e, '.' ∉ e ∧ E = '.' :: e) (other : List Char) :
    front ++ digits ++ E ≠ other ++ E ++ ".gz".toList := by
  intro heq
  have hend : front ++ digits = other ++ ".gz".toList := by
    rcases hE with rfl | ⟨e, he, rfl⟩
    · simpa using heq
    · have hleft := cutLast?_append (a := front ++ digits) he
      have hright : cutLast? '.' ((other ++ '.' :: e) ++ '.' :: ['g', 'z']) =
          some (other ++ '.' :: e, ['g', 'z']) := cutLast?_append (by decide)
      have hsame := hleft.symm.trans ((congrArg (cutLast? '.') heq).trans hright)
      obtain ⟨hfront, hgz⟩ := Prod.mk.inj (Option.some.inj hsame)
      rw [hfront, hgz]
      rfl
  have hlast := congrArg List.getLast? hend
  rw [List.getLast?_append_of_ne_nil _ hdigits.1,
    List.getLast?_append_of_ne_nil _ (by decide)] at hlast
  have hz : 'z' ∈ digits := List.mem_of_getLast? hlast
  exact absurd (hdigits.2 'z' hz) (by decide)

theorem sequence_of_rotatedName_eq {name x y : String} (hx : IsPackMark x) (hy : IsPackMark y)
    (h : rotatedName name s m ++ x = rotatedName name t n ++ y) : m % 10000 = n % 10000 := by
  obtain ⟨front, hm⟩ := toList_rotatedName name s m
  obtain ⟨front', hn⟩ := toList_rotatedName name t n
  have hdigits (k : Nat) : (padded 4 (k % 10000)).toList ≠ [] ∧
      ∀ c ∈ (padded 4 (k % 10000)).toList, c.isDigit = true :=
    ⟨padded_ne_nil 4 _, fun _ hc => isDigit_of_mem_padded hc⟩
  have hchars := congrArg String.toList h
  rw [String.toList_append, String.toList_append, hm, hn] at hchars
  have hE := toList_extensionOf name
  have hplain : front ++ (padded 4 (m % 10000)).toList =
      front' ++ (padded 4 (n % 10000)).toList := by
    rcases hx with rfl | rfl <;> rcases hy with rfl | rfl
    · rw [String.toList_empty, List.append_nil, List.append_nil] at hchars
      exact List.append_cancel_right hchars
    · rw [String.toList_empty, List.append_nil] at hchars
      exact absurd hchars (append_extension_ne (hdigits m) hE _)
    · rw [String.toList_empty, List.append_nil] at hchars
      exact absurd hchars.symm (append_extension_ne (hdigits n) hE _)
    · exact List.append_cancel_right (List.append_cancel_right hchars)
  have hlength (k : Nat) : (padded 4 (k % 10000)).toList.length = 4 :=
    length_padded (by decide) (Nat.mod_lt k (by decide))
  have hsame := (List.append_inj' hplain ((hlength m).trans (hlength n).symm)).2
  exact padded_inj (String.toList_inj.mp hsame)

end Cadence.LogFolder
