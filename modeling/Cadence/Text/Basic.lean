/-!
# Texts

The blanks that separate words, the case of letters, and cutting a text at blanks or at marks.

Case is folded for the comparison with words of plain letters. Outside `A` to `Z` exactly one
character has a plain letter as its lower case, the Kelvin sign, and two have one as their upper
case, the dotless i and the long s; so the maps here decide every such comparison.
-/

namespace Cadence.Text

/-! ## Letter case -/

/-- Lower case, as far as the result is a plain letter. -/
def lowerChar (c : Char) : Char := if c = '\u212a' then 'k' else c.toLower

/-- Upper case, as far as the result is a plain letter. -/
def upperChar (c : Char) : Char :=
  if c = '\u0131' then 'I' else if c = '\u017f' then 'S' else c.toUpper

def lower (s : String) : String := String.ofList (s.toList.map lowerChar)

/-! ## Marks -/

/-- The parts between marks; a text without the mark is one part. -/
def splitOn (mark : Char) : List Char → List (List Char)
  | [] => [[]]
  | c :: cs =>
    if c = mark then [] :: splitOn mark cs
    else match splitOn mark cs with
      | [] => [[c]]
      | p :: ps => (c :: p) :: ps

/-- The characters before the first mark, and those after it if there is one. -/
def cut (mark : Char) (cs : List Char) : List Char × Option (List Char) :=
  match cs.dropWhile (· ≠ mark) with
  | [] => (cs, none)
  | _ :: rest => (cs.takeWhile (· ≠ mark), some rest)

/-- The characters before the last mark and those after it, if there is one. -/
def cutLast? (mark : Char) (cs : List Char) : Option (List Char × List Char) :=
  match cs.reverse.dropWhile (· ≠ mark) with
  | [] => none
  | _ :: before => some (before.reverse, (cs.reverse.takeWhile (· ≠ mark)).reverse)

/-- The characters after a given beginning, if they begin so. -/
def dropPrefix? (start cs : List Char) : Option (List Char) :=
  if start.isPrefixOf cs then some (cs.drop start.length) else none

/-! ## Blanks -/

/-- The characters with the Unicode property `White_Space`. -/
def isBlank (c : Char) : Bool :=
  let n := c.toNat
  (9 ≤ n && n ≤ 13) || n == 0x20 || n == 0x85 || n == 0xA0 || n == 0x1680 ||
    (0x2000 ≤ n && n ≤ 0x200A) || n == 0x2028 || n == 0x2029 || n == 0x202F ||
    n == 0x205F || n == 0x3000

/-- The characters without the blanks at the front. -/
def trimStart (cs : List Char) : List Char := cs.dropWhile isBlank

/-- The characters without the blanks at the back. -/
def trimEnd (cs : List Char) : List Char := (cs.reverse.dropWhile isBlank).reverse

/-- The characters without the blanks at either end. -/
def trim (cs : List Char) : List Char := trimEnd (trimStart cs)

/-- A text without the blanks at either end. -/
def trimmed (s : String) : String := String.ofList (trim s.toList)

/-- Nothing but blanks. -/
def isBlankText (s : String) : Bool := s.toList.all isBlank

/-- The longest runs of characters that are not blank, in order. -/
def pieces (cs : List Char) : List (List Char) :=
  match _h : cs.dropWhile isBlank with
  | [] => []
  | c :: rest =>
    (c :: rest.takeWhile (fun d => !isBlank d)) :: pieces (rest.dropWhile (fun d => !isBlank d))
termination_by cs.length
decreasing_by
  have h₁ := (cs.dropWhile_sublist (p := isBlank)).length_le
  have h₂ := (rest.dropWhile_sublist (p := fun d => !isBlank d)).length_le
  simp [_h] at h₁
  omega

theorem pieces_ne_nil {cs p : List Char} (h : p ∈ pieces cs) : p ≠ [] := by
  fun_induction pieces cs with
  | case1 => simp at h
  | case2 cs c rest _ ih => grind

theorem head_dropWhile_isBlank {cs rest : List Char} {c : Char}
    (h : cs.dropWhile isBlank = c :: rest) : isBlank c = false := by
  have := List.head?_dropWhile_not isBlank cs
  simpa [h] using this

theorem pieces_noBlank {cs p : List Char} (h : p ∈ pieces cs) : ∀ c ∈ p, isBlank c = false := by
  fun_induction pieces cs with
  | case1 => simp at h
  | case2 cs c rest hc ih =>
    rcases List.mem_cons.1 h with rfl | h
    · intro d hd
      rcases List.mem_cons.1 hd with rfl | hd
      · exact head_dropWhile_isBlank hc
      · have := List.all_takeWhile (p := fun d => !isBlank d) (l := rest)
        simp only [List.all_eq_true] at this
        simpa using this d hd
    · exact ih h

end Cadence.Text
