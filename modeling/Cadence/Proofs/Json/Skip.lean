import Cadence.Proofs.Json.Record

/-!
# Skipping values

The readers of values are stricter than what skips them, and where both get through they leave the
same characters behind.
-/

namespace Cadence.Json

variable {cs rest : List Char} {v : Json}

/-! ## What is left is no longer -/

theorem length_skipGaps (cs : List Char) : (skipGaps cs).length ≤ cs.length :=
  (List.dropWhile_sublist isGap).length_le

theorem length_lt_of_skipGaps {mark : Char} (h : skipGaps cs = mark :: rest) :
    rest.length < cs.length := by
  have hle := length_skipGaps cs
  rwa [h] at hle

theorem length_spanDigits (cs : List Char) : (Text.spanDigits cs).2.length ≤ cs.length :=
  (List.dropWhile_sublist Char.isDigit).length_le

theorem length_skipString (h : skipString cs = some rest) : rest.length ≤ cs.length := by
  fun_induction skipString cs with
  | case1 | case4 | case6 | case7 => cases h
  | case2 rest' =>
    cases h
    exact Nat.le_succ _
  | case3 | case5 | case8 =>
    rename_i ih
    have := ih h
    simp only [List.length_cons]
    omega

theorem length_readFraction {places : List Char} (h : readFraction cs = some (places, rest)) :
    rest.length ≤ cs.length := by
  unfold readFraction at h
  grind [length_spanDigits]

theorem length_readExponent {exponent : Option Int} (h : readExponent cs = some (exponent, rest)) :
    rest.length ≤ cs.length := by
  unfold readExponent at h
  grind [length_spanDigits]

/-- The sign of a number, and the characters behind it. -/
def cutSign (cs : List Char) : Bool × List Char :=
  match cs with
  | '-' :: rest => (true, rest)
  | _ => (false, cs)

/-- The digits are no whole part of a number. -/
def noWhole (ds : List Char) : Bool := ds.isEmpty || (ds.head? = some '0' && 1 < ds.length)

/-- The whole part of a number, and the characters behind it. -/
def cutWhole? (cs : List Char) : Option (List Char × List Char) :=
  if noWhole (Text.spanDigits cs).1 then none else some (Text.spanDigits cs)

theorem skipNumber_eq (cs : List Char) :
    skipNumber cs = do
      let (_, tail) ← cutWhole? (cutSign cs).2
      let (_, tail) ← readFraction tail
      let (_, rest) ← readExponent tail
      return rest := by
  unfold skipNumber cutWhole? cutSign noWhole
  grind

theorem readNumber_eq (cs : List Char) :
    readNumber cs = do
      let (whole, tail) ← cutWhole? (cutSign cs).2
      let (places, tail) ← readFraction tail
      let (exponent, rest) ← readExponent tail
      let v ← numberOf? (cutSign cs).1 whole places exponent
      return (v, rest) := by
  unfold readNumber cutWhole? cutSign noWhole
  grind

theorem length_skipNumber (h : skipNumber cs = some rest) : rest.length ≤ cs.length := by
  rw [skipNumber_eq] at h
  simp only [Option.bind_eq_bind, Option.bind_eq_some_iff] at h
  obtain ⟨⟨whole, tail⟩, hwhole, ⟨places, tail'⟩, hplaces, ⟨exponent, rest'⟩, hexponent, h⟩ := h
  obtain rfl : rest' = rest := Option.some.inj h
  have hsign : (cutSign cs).2.length ≤ cs.length := by
    unfold cutSign
    split
    · exact Nat.le_succ _
    · exact Nat.le_refl _
  have hcut : tail.length ≤ (cutSign cs).2.length := by
    unfold cutWhole? at hwhole
    split at hwhole
    · cases hwhole
    · cases hwhole
      exact length_spanDigits _
  have hfraction : tail'.length ≤ tail.length := length_readFraction hplaces
  have hexponent : rest'.length ≤ tail'.length := length_readExponent hexponent
  omega

/-! ## Skipping goes as far as reading -/

theorem skipNumber_of_readNumber (h : readNumber cs = some (v, rest)) :
    skipNumber cs = some rest := by
  rw [readNumber_eq] at h
  simp only [Option.bind_eq_bind, Option.bind_eq_some_iff] at h
  obtain ⟨⟨whole, tail⟩, hwhole, ⟨places, tail'⟩, hplaces, ⟨exponent, rest'⟩, hexponent, n, -, h⟩ := h
  cases h
  rw [skipNumber_eq, hwhole]
  simp only [Option.bind_eq_bind, Option.bind_some, hplaces, hexponent, Option.pure_def]

theorem length_skipScalar (h : skipScalar cs = some rest) : rest.length ≤ cs.length := by
  revert h
  fun_cases skipScalar cs with
  | case1 | case2 | case3 =>
    rintro ⟨⟩
    simp only [List.length_cons]
    omega
  | case4 => exact fun h => Nat.le_succ_of_le (length_skipString h)
  | case5 => exact length_skipNumber

theorem skipScalar_of_readScalar (h : readScalar cs = some (v, rest)) :
    skipScalar cs = some rest := by
  unfold readScalar at h
  split at h
  · cases h
    rfl
  · cases h
    rfl
  · cases h
    rfl
  · obtain ⟨⟨s, rest'⟩, hread, h⟩ := Option.map_eq_some_iff.mp h
    cases h
    exact skipString_of_readString hread
  · rename_i hnull htrue hfalse hquote
    rw [skipScalar]
    · exact skipNumber_of_readNumber h
    all_goals assumption

variable {skip : List Char → Option (List Char)} {item : List Char → Option (Json × List Char)}
  {fuel n : Nat}

theorem length_lt_of_mark (hskip : ∀ cs rest, skip cs = some rest → rest.length ≤ cs.length)
    {mark : Char} (h : (skip cs).map skipGaps = some (mark :: rest)) : rest.length < cs.length := by
  obtain ⟨tail, htail, hgaps⟩ := Option.map_eq_some_iff.mp h
  exact Nat.lt_of_lt_of_le (length_lt_of_skipGaps hgaps) (hskip cs tail htail)

theorem length_skipItems (hskip : ∀ cs rest, skip cs = some rest → rest.length ≤ cs.length)
    (h : skipItems skip fuel cs = some rest) : rest.length ≤ cs.length := by
  fun_induction skipItems skip fuel cs with
  | case1 | case4 => cases h
  | case2 _ _ _ hmark ih => exact Nat.le_trans (ih h) (Nat.le_of_lt (length_lt_of_mark hskip hmark))
  | case3 _ _ _ hmark =>
    cases h
    exact Nat.le_of_lt (length_lt_of_mark hskip hmark)

theorem length_skipMembers (hskip : ∀ cs rest, skip cs = some rest → rest.length ≤ cs.length)
    (h : skipMembers skip fuel cs = some rest) : rest.length ≤ cs.length := by
  fun_induction skipMembers skip fuel cs with
  | case1 | case4 | case5 | case6 => cases h
  | case2 _ _ _ hquote _ hcolon _ hmark ih =>
    have hquote := length_lt_of_skipGaps hquote
    have hcolon := length_lt_of_mark (fun _ _ => length_skipString) hcolon
    have hmark := length_lt_of_mark hskip hmark
    have := ih h
    omega
  | case3 _ _ _ hquote _ hcolon _ hmark =>
    cases h
    have hquote := length_lt_of_skipGaps hquote
    have hcolon := length_lt_of_mark (fun _ _ => length_skipString) hcolon
    have hmark := length_lt_of_mark hskip hmark
    omega

theorem length_skipTo {depth : Nat} (h : skipTo depth cs = some rest) :
    rest.length ≤ cs.length := by
  have hgaps := length_skipGaps cs
  induction depth generalizing cs rest with
  | zero => exact Nat.le_trans (length_skipScalar h) hgaps
  | succ depth ih =>
    rw [skipTo] at h
    split at h
    · rename_i tail hopen
      have hopen := length_lt_of_skipGaps hopen
      split at h
      · rename_i hclose
        cases h
        have hclose := length_lt_of_skipGaps hclose
        omega
      · have := length_skipItems (fun cs _ h => ih h (length_skipGaps cs)) h
        have := length_skipGaps tail
        omega
    · rename_i tail hopen
      have hopen := length_lt_of_skipGaps hopen
      split at h
      · rename_i hclose
        cases h
        have hclose := length_lt_of_skipGaps hclose
        omega
      · have := length_skipMembers (fun cs _ h => ih h (length_skipGaps cs)) h
        have := length_skipGaps tail
        omega
    · exact Nat.le_trans (length_skipScalar h) hgaps

theorem skipItems_of_readItems {done items : List Json}
    (hskip : ∀ cs rest, skip cs = some rest → rest.length ≤ cs.length)
    (hread : ∀ cs v rest, cs.length ≤ n → item cs = some (v, rest) → skip cs = some rest)
    (hn : cs.length ≤ n) (h : readItems item fuel done cs = some (items, rest)) :
    skipItems skip fuel cs = some rest := by
  fun_induction readItems item fuel done cs with
  | case1 | case2 | case5 => cases h
  | case3 fuel done cs v tail hitem rest' hmark ih =>
    have hskipped := hread cs v tail hn hitem
    have htail := hskip cs tail hskipped
    have hrest := length_lt_of_skipGaps hmark
    rw [skipItems, hskipped, Option.map_some, hmark]
    exact ih (by omega) h
  | case4 fuel done cs v tail hitem rest' hmark =>
    cases h
    simp only [skipItems, hread cs v tail hn hitem, Option.map_some, hmark]

theorem length_lt_of_member {behindQuote behindName behindColon : List Char} {name : String}
    (hquote : skipGaps cs = '"' :: behindQuote)
    (hname : readString [] behindQuote = some (name, behindName))
    (hcolon : skipGaps behindName = ':' :: behindColon) : behindColon.length < cs.length := by
  have := length_lt_of_skipGaps hquote
  have := length_skipString (skipString_of_readString hname)
  have := length_lt_of_skipGaps hcolon
  omega

theorem skipMembers_of_readMembers {done members : List (String × Json)}
    (hskip : ∀ cs rest, skip cs = some rest → rest.length ≤ cs.length)
    (hread : ∀ cs v rest, cs.length ≤ n → item cs = some (v, rest) → skip cs = some rest)
    (hn : cs.length ≤ n) (h : readMembers item fuel done cs = some (members, rest)) :
    skipMembers skip fuel cs = some rest := by
  fun_induction readMembers item fuel done cs with
  | case1 | case2 | case3 | case6 | case7 | case8 => cases h
  | case4 fuel done cs _ hquote name _ hname text hcolon v tail hitem rest' hmark ih =>
    have htext := length_lt_of_member hquote hname hcolon
    have hskipped := hread text v tail (by omega) hitem
    have htail := hskip text tail hskipped
    have hrest := length_lt_of_skipGaps hmark
    simp only [skipMembers, hquote, skipString_of_readString hname, Option.map_some, hcolon,
      hskipped, hmark]
    exact ih (by omega) h
  | case5 fuel done cs _ hquote name _ hname text hcolon v tail hitem rest' hmark =>
    cases h
    have htext := length_lt_of_member hquote hname hcolon
    simp only [skipMembers, hquote, skipString_of_readString hname, Option.map_some, hcolon,
      hread text v tail (by omega) hitem, hmark]

/-- What the text of a value begins with. -/
inductive ValueAt : Nat → List Char → Json → List Char → Prop
  | scalar {depth : Nat} {cs : List Char} {v : Json} {rest : List Char}
      (hread : readScalar (skipGaps cs) = some (v, rest)) : ValueAt depth cs v rest
  | noItems {depth : Nat} {cs tail rest : List Char} (hopen : skipGaps cs = '[' :: tail)
      (hclose : skipGaps tail = ']' :: rest) : ValueAt (depth + 1) cs (.arr []) rest
  | items {depth : Nat} {cs tail rest : List Char} {items : List Json}
      (hopen : skipGaps cs = '[' :: tail) (hmore : ∀ rest, skipGaps tail ≠ ']' :: rest)
      (hread : readItems (readValue depth) ((skipGaps tail).length + 1) [] (skipGaps tail) =
        some (items, rest)) : ValueAt (depth + 1) cs (.arr items) rest
  | noMembers {depth : Nat} {cs tail rest : List Char} (hopen : skipGaps cs = '\x7b' :: tail)
      (hclose : skipGaps tail = '\x7d' :: rest) : ValueAt (depth + 1) cs (.obj []) rest
  | members {depth : Nat} {cs tail rest : List Char} {members : List (String × Json)}
      (hopen : skipGaps cs = '\x7b' :: tail) (hmore : ∀ rest, skipGaps tail ≠ '\x7d' :: rest)
      (hread : readMembers (readValue depth) ((skipGaps tail).length + 1) [] (skipGaps tail) =
        some (members, rest)) : ValueAt (depth + 1) cs (.obj members) rest

theorem valueAt_of_readValue {depth : Nat} (h : readValue depth cs = some (v, rest)) :
    ValueAt depth cs v rest := by
  cases depth with
  | zero => exact .scalar h
  | succ depth =>
    rw [readValue] at h
    split at h
    · rename_i tail hopen
      split at h
      · rename_i hclose
        cases h
        exact .noItems hopen hclose
      · rename_i hmore
        obtain ⟨⟨items, rest'⟩, hread, h⟩ := Option.map_eq_some_iff.mp h
        cases h
        exact .items hopen hmore hread
    · rename_i tail hopen
      split at h
      · rename_i hclose
        cases h
        exact .noMembers hopen hclose
      · rename_i hmore
        obtain ⟨⟨members, rest'⟩, hread, h⟩ := Option.map_eq_some_iff.mp h
        cases h
        exact .members hopen hmore hread
    · exact .scalar h

theorem not_open_of_readScalar (h : readScalar cs = some (v, rest)) :
    (∀ tail, cs ≠ '[' :: tail) ∧ ∀ tail, cs ≠ '\x7b' :: tail := by
  constructor
  · rintro tail rfl
    cases h
  · rintro tail rfl
    cases h

/-- A value nests no deeper than its text is long, so a value that is read is skipped with the
length of the text as the depth. -/
theorem skipTo_of_readValue {depth : Nat} (hn : cs.length ≤ n)
    (h : readValue depth cs = some (v, rest)) : skipTo n cs = some rest := by
  induction n generalizing depth cs v rest with
  | zero =>
    obtain rfl : cs = [] := List.length_eq_zero_iff.mp (Nat.le_zero.mp hn)
    cases depth <;> cases h
  | succ n ih =>
    have hskip (cs rest : List Char) : skipTo n cs = some rest → rest.length ≤ cs.length :=
      length_skipTo
    have hread (depth : Nat) (cs : List Char) (v : Json) (rest : List Char) (hn : cs.length ≤ n) :
        readValue depth cs = some (v, rest) → skipTo n cs = some rest := ih hn
    cases valueAt_of_readValue h with
    | scalar hscalar =>
      have hopen := not_open_of_readScalar hscalar
      rw [skipTo]
      split
      · rename_i heq
        exact absurd heq (hopen.1 _)
      · rename_i heq
        exact absurd heq (hopen.2 _)
      · exact skipScalar_of_readScalar hscalar
    | noItems hopen hclose => simp only [skipTo, hopen, hclose]
    | @items depth _ tail _ _ hopen hmore hitems =>
      have hlength := length_lt_of_skipGaps hopen
      have hgaps := length_skipGaps tail
      simp only [skipTo, hopen]
      exact skipItems_of_readItems hskip (hread depth) (by omega) hitems
    | noMembers hopen hclose => simp only [skipTo, hopen, hclose]
    | @members depth _ tail _ _ hopen hmore hmembers =>
      have hlength := length_lt_of_skipGaps hopen
      have hgaps := length_skipGaps tail
      simp only [skipTo, hopen]
      exact skipMembers_of_readMembers hskip (hread depth) (by omega) hmembers

theorem skipValue_of_readValue {depth : Nat} (h : readValue depth cs = some (v, rest)) :
    skipValue cs = some rest := skipTo_of_readValue (Nat.le_refl _) h

end Cadence.Json
