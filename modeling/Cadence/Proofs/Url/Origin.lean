import Cadence.Proofs.Text.Split
import Cadence.Url.Read

/-!
# The origin of a joined URL

A reference that is joined to a base either names an origin of its own, by a scheme or by two
slashes in front, or it stays at the origin of the base. Which of the two it is can be told from the
text and the scheme of the base.
-/

namespace Cadence.Url

/-- The reference names an origin of its own: by a scheme that does not continue the base, or by two
slashes. -/
def namesOrigin (base : Url) (s : String) : Bool :=
  let cs := cleaned s
  match cutScheme? cs with
  | some (scheme, rest) =>
    !(isSpecial scheme && scheme = base.scheme && (rest.takeWhile isSlash).length < 2)
  | none => 2 ≤ (cs.takeWhile isSlash).length

/-! ## The slashes in front -/

theorem takeWhile_isSlash_cut {mark : Char} (hmark : isSlash mark = false) (cs : List Char) :
    (Text.cut mark cs).1.takeWhile isSlash = cs.takeWhile isSlash := by
  rw [Text.cut_fst, List.takeWhile_takeWhile]
  congr 1
  funext c
  by_cases hc : c = mark <;> simp [hc, hmark]

theorem takeWhile_isSlash_cutTail (cs : List Char) :
    (cutTail cs).1.takeWhile isSlash = cs.takeWhile isSlash := by
  unfold cutTail
  rw [takeWhile_isSlash_cut (by decide), takeWhile_isSlash_cut (by decide)]

theorem two_le_takeWhile_iff (p : Char → Bool) (cs : List Char) :
    2 ≤ (cs.takeWhile p).length ↔ ∃ a b rest, cs = a :: b :: rest ∧ p a = true ∧ p b = true := by
  match cs with
  | [] => simp
  | [a] => cases h : p a <;> simp [h]
  | a :: b :: rest =>
    constructor
    · intro h
      refine ⟨a, b, rest, rfl, ?_⟩
      cases ha : p a <;> cases hb : p b <;> simp [ha, hb] at h ⊢
    · rintro ⟨a, b, rest, ⟨rfl, rfl, rfl⟩, ha, hb⟩
      simp [ha, hb]

theorem front_slashes_iff (front : List Char) :
    ((front.take 2).length = 2 && (front.take 2).all isSlash) = true ↔
      2 ≤ (front.takeWhile isSlash).length := by
  match front with
  | [] => simp
  | [a] => cases h : isSlash a <;> simp [h]
  | a :: b :: rest => cases ha : isSlash a <;> cases hb : isSlash b <;> simp [ha, hb]

/-! ## References without a scheme -/

variable [HostNames]

theorem origin_of_readRelative {base u : Url} {cs : List Char}
    (hslashes : (cs.takeWhile isSlash).length < 2) (h : readRelative base cs = .ok u) :
    u.origin = base.origin := by
  rw [← takeWhile_isSlash_cutTail] at hslashes
  unfold readRelative at h
  split at h
  rename_i front query fragment hcut
  rw [hcut] at hslashes
  simp only at h hslashes
  split at h
  · split at h <;> (cases h; rfl)
  · simp only [isSlash, List.takeWhile_cons, decide_true, Bool.true_or, if_true,
      List.length_cons] at hslashes
    omega
  · split at h
    · rw [if_neg (by omega)] at h
      cases h
      rfl
    · cases h
      rfl

theorem readRelative_of_slashes {base base' : Url} {cs : List Char}
    (hslashes : 2 ≤ (cs.takeWhile isSlash).length) (hscheme : base'.scheme = base.scheme) :
    readRelative base' cs = readRelative base cs := by
  have hfront := hslashes
  rw [← takeWhile_isSlash_cutTail] at hfront
  unfold readRelative
  split
  rename_i front query fragment hcut
  rw [hcut] at hfront
  simp only at hfront ⊢
  split
  · simp at hfront
  · rw [hscheme]
  · rename_i c rest hnot
    have hc : isSlash c = true := by
      obtain ⟨a, b, after, heq, ha, -⟩ := (two_le_takeWhile_iff isSlash _).mp hfront
      cases heq
      exact ha
    simp only [hc, if_true, hfront, hscheme]

theorem readFile_of_few_slashes {base : Url} {cs : List Char}
    (hslashes : (cs.takeWhile isSlash).length < 2) :
    readFile (some base) cs = readRelative base cs := by
  rw [← takeWhile_isSlash_cutTail] at hslashes
  have hnot : ¬ ((((cutTail cs).1.take 2).length = 2 && ((cutTail cs).1.take 2).all isSlash) =
      true) := by
    rw [front_slashes_iff]
    omega
  unfold readFile
  simp only [hnot]
  rfl

theorem readFile_of_slashes {cs : List Char} (hslashes : 2 ≤ (cs.takeWhile isSlash).length)
    (base? base'? : Option Url) : readFile base'? cs = readFile base? cs := by
  rw [← takeWhile_isSlash_cutTail] at hslashes
  have hsome := (front_slashes_iff _).mpr hslashes
  unfold readFile
  simp only [hsome, if_true]

/-! ## References with a scheme -/

theorem readWithScheme_of_few_slashes {base : Url} {cs : List Char}
    (hspecial : isSpecial base.scheme = true) (hslashes : (cs.takeWhile isSlash).length < 2) :
    readWithScheme (some base) base.scheme cs = readRelative base cs := by
  unfold readWithScheme
  split
  · rename_i hfile
    rw [Option.filter_some, if_pos (by simp [hfile]), readFile_of_few_slashes hslashes]
  · simp only [Option.filter_some, decide_true, Bool.true_and, hslashes, if_true]

theorem readWithScheme_of_names {base : Url} {scheme : String} {cs : List Char}
    (h : ¬ (isSpecial scheme = true ∧ scheme = base.scheme ∧ (cs.takeWhile isSlash).length < 2)) :
    readWithScheme (some base) scheme cs = readWithScheme none scheme cs := by
  unfold readWithScheme
  split
  · rename_i hfile
    subst hfile
    by_cases hslashes : 2 ≤ (cs.takeWhile isSlash).length
    · exact readFile_of_slashes hslashes none _
    · have hne : ¬ base.scheme = "file" := by
        intro heq
        exact h ⟨by decide, heq.symm, by omega⟩
      rw [Option.filter_some, if_neg (by simpa using hne)]
      rfl
  · split
    · rename_i hspecial
      have hnot : ¬ (base.scheme = scheme ∧ (cs.takeWhile isSlash).length < 2) :=
        fun ⟨heq, hslashes⟩ => h ⟨hspecial, heq.symm, hslashes⟩
      have hfilter : (some base).filter (fun base => decide (base.scheme = scheme) &&
          decide ((cs.takeWhile isSlash).length < 2)) = none := by
        rw [Option.filter_some, if_neg (by simpa using hnot)]
      simp only [hfilter]
      rfl
    · rfl

/-! ## All references -/

/-- A reference that names no origin stays at the origin of the base. -/
theorem origin_of_join {base u : Url} {s : String} (hnames : base.namesOrigin s = false)
    (h : base.join s = .ok u) : u.origin = base.origin := by
  unfold namesOrigin at hnames
  unfold join read at h
  simp only at hnames h
  split at h
  · rename_i scheme rest hcut
    rw [hcut] at hnames
    simp only [Bool.not_eq_false', Bool.and_eq_true, decide_eq_true_eq] at hnames
    obtain ⟨⟨hspecial, rfl⟩, hslashes⟩ := hnames
    rw [readWithScheme_of_few_slashes hspecial hslashes] at h
    exact origin_of_readRelative hslashes h
  · rename_i hcut
    rw [hcut] at hnames
    have hslashes : ((cleaned s).takeWhile isSlash).length < 2 := by simpa using hnames
    split at h
    · -- A fragment alone is put in place of that of the base.
      cases h
      rfl
    · cases h
    · split at h
      · rw [readFile_of_few_slashes hslashes] at h
        exact origin_of_readRelative hslashes h
      · exact origin_of_readRelative hslashes h

theorem join_of_no_scheme {base : Url} {s : String} {names : List String}
    (hcut : cutScheme? (cleaned s) = none) (hpath : base.path = .segments names)
    (hmark : ∀ f, cleaned s ≠ '#' :: f) :
    base.join s =
      if base.scheme = "file" then readFile (some base) (cleaned s)
      else readRelative base (cleaned s) := by
  unfold join read
  simp only [hcut, hpath]

theorem join_eq_of_namesOrigin {base base' : Url} {s : String} {names names' : List String}
    (hnames : base.namesOrigin s = true) (hscheme : base'.scheme = base.scheme)
    (hpath : base.path = .segments names) (hpath' : base'.path = .segments names') :
    base'.join s = base.join s := by
  unfold namesOrigin at hnames
  simp only at hnames
  cases hcut : cutScheme? (cleaned s) with
  | some found =>
    obtain ⟨scheme, rest⟩ := found
    have hnot : ¬ (isSpecial scheme = true ∧ scheme = base.scheme ∧
        (rest.takeWhile isSlash).length < 2) := by
      rw [hcut] at hnames
      rintro ⟨hspecial, hsame, hslashes⟩
      simp [hsame ▸ hspecial, hsame, hslashes] at hnames
    unfold join read
    simp only [hcut]
    rw [readWithScheme_of_names hnot, readWithScheme_of_names (by rw [hscheme]; exact hnot)]
  | none =>
    rw [hcut] at hnames
    have hslashes : 2 ≤ ((cleaned s).takeWhile isSlash).length := by simpa using hnames
    have hmark : ∀ f, cleaned s ≠ '#' :: f := by
      intro f heq
      rw [heq] at hslashes
      simp [isSlash] at hslashes
    rw [join_of_no_scheme hcut hpath hmark, join_of_no_scheme hcut hpath' hmark, hscheme,
      readFile_of_slashes hslashes (some base) (some base'),
      readRelative_of_slashes hslashes hscheme]

end Cadence.Url
