import Cadence.Json.Print
import Cadence.Json.Read
import Cadence.Proofs.Text.Chars
import Mathlib.Tactic.SplitIfs

/-!
# What is written is read

The reader gives back the value that was written, whatever comes after it in an array or an object.
This is said of values with integers of 64 bits and without floats.
-/

namespace Cadence.Json

/-! ## The end of a value -/

/-- The text is at its end, or goes on behind a value of an array or an object. -/
def Closes (cs : List Char) : Prop := ∀ c rest, cs = c :: rest → c ∈ [',', ']', '\x7d']

theorem Closes.nil : Closes [] := fun _ _ h => by cases h

theorem Closes.cons {c : Char} (h : c ∈ [',', ']', '\x7d']) (cs : List Char) : Closes (c :: cs) :=
  fun _ _ heq => (List.cons.inj heq).1 ▸ h

theorem skipGaps_cons {c : Char} (h : isGap c = false) (cs : List Char) :
    skipGaps (c :: cs) = c :: cs := by
  unfold skipGaps
  rw [List.dropWhile_cons, h]
  rfl

theorem Closes.skipGaps {cs : List Char} (h : Closes cs) : skipGaps cs = cs := by
  cases cs with
  | nil => rfl
  | cons c cs =>
    have hmarks : ∀ d ∈ [',', ']', '\x7d'], isGap d = false := Text.forall_mem_of_all (by decide)
    exact skipGaps_cons (hmarks c (h c cs rfl)) cs

/-! ## Strings -/

theorem hexValue?_hexDigit : ∀ n < 16, hexValue? (hexDigit n) = some n := by decide

theorem hexDigit_mod (n : Nat) : hexDigit (n % 16) = hexDigit n := by
  unfold hexDigit
  rw [Nat.mod_mod]

theorem hex4?_of_control {c : Char} (h : c.toNat < 32) :
    hex4? '0' '0' (hexDigit (c.toNat / 16)) (hexDigit c.toNat) = some c.toNat := by
  have hzero : hexValue? '0' = some 0 := rfl
  have hhigh := hexValue?_hexDigit (c.toNat / 16) (by omega)
  have hlow := hexValue?_hexDigit (c.toNat % 16) (by omega)
  rw [hexDigit_mod] at hlow
  unfold hex4?
  rw [hhigh, hlow, hzero]
  simp only [Option.bind_eq_bind, Option.bind_some, Option.pure_def, Option.some.injEq]
  omega

theorem readString_escapeChar (done : List Char) (c : Char) (rest : List Char) :
    readString done (escapeChar c ++ rest) = readString (c :: done) rest := by
  unfold escapeChar
  split_ifs with hquote hslash hn hr ht hb hf hcontrol
  · subst hquote; rfl
  · subst hslash; rfl
  · subst hn; rfl
  · subst hr; rfl
  · subst ht; rfl
  · subst hb; rfl
  · subst hf; rfl
  · -- A control character is written as its number.
    have hhex := hex4?_of_control hcontrol
    have hsurrogate : isLowSurrogate c.toNat = false ∧ isHighSurrogate c.toNat = false := by
      simp only [isLowSurrogate, isHighSurrogate, Bool.and_eq_false_iff, decide_eq_false_iff_not]
      omega
    simp only [List.cons_append, List.nil_append]
    rw [readString]
    simp only [hhex, hsurrogate, Bool.false_eq_true, if_false, Char.ofNat_toNat]
  · rw [List.singleton_append, readString, if_neg hcontrol]
    · exact hquote
    · exact fun _ _ _ _ _ h _ => hslash h
    · exact fun _ _ h _ => hslash h

theorem readString_flatMap (done cs rest : List Char) :
    readString done (cs.flatMap escapeChar ++ '"' :: rest) =
      some (String.ofList (done.reverse ++ cs), rest) := by
  induction cs generalizing done with
  | nil => simp [readString]
  | cons c cs ih =>
    rw [List.flatMap_cons, List.append_assoc, readString_escapeChar, ih]
    simp

theorem readString_quoted (s : String) (rest : List Char) :
    readString [] (s.toList.flatMap escapeChar ++ '"' :: rest) = some (s, rest) := by
  rw [readString_flatMap]
  simp

theorem quoted_append (s : String) (rest : List Char) :
    quoted s ++ rest = '"' :: (s.toList.flatMap escapeChar ++ '"' :: rest) := by
  unfold quoted
  simp

/-! ## Numbers -/

theorem isDigit_of_mem_toDigits {n : Nat} {c : Char} (h : c ∈ Nat.toDigits 10 n) :
    c.isDigit = true := Nat.isDigit_of_mem_toDigits (by decide) (by decide) h

theorem head?_toDigits_ne_zero (n : Nat) (hpos : 0 < n) : (Nat.toDigits 10 n).head? ≠ some '0' := by
  induction n using Nat.strongRecOn with
  | ind n ih =>
    by_cases hn : n < 10
    · have hdigits : ∀ d < 10, 0 < d → (Nat.toDigits 10 d).head? ≠ some '0' := by decide
      exact hdigits n hn hpos
    · rw [Nat.toDigits_of_base_le (by decide) (by omega), List.head?_append]
      intro hzero
      rcases Option.or_eq_some_iff.mp hzero with h | ⟨hnil, -⟩
      · exact ih (n / 10) (by omega) (by omega) h
      · exact Nat.toDigits_ne_nil (List.head?_eq_none_iff.mp hnil)

theorem no_leading_zero (n : Nat) :
    ((Nat.toDigits 10 n).isEmpty ||
      ((Nat.toDigits 10 n).head? = some '0' && 1 < (Nat.toDigits 10 n).length : Bool)) = false := by
  rw [Bool.or_eq_false_iff]
  refine ⟨List.isEmpty_eq_false_iff.mpr Nat.toDigits_ne_nil, ?_⟩
  rcases Nat.eq_zero_or_pos n with rfl | hpos
  · decide
  · simp [head?_toDigits_ne_zero n hpos]

theorem spanDigits_toDigits (n : Nat) {rest : List Char} (hrest : Closes rest) :
    Text.spanDigits (Nat.toDigits 10 n ++ rest) = (Nat.toDigits 10 n, rest) := by
  have hdigits : ∀ c ∈ Nat.toDigits 10 n, c.isDigit = true := fun c => isDigit_of_mem_toDigits
  have hmarks : ∀ c ∈ [',', ']', '\x7d'], c.isDigit = false := Text.forall_mem_of_all (by decide)
  unfold Text.spanDigits
  rw [List.takeWhile_append_of_pos hdigits, List.dropWhile_append_of_pos hdigits]
  cases rest with
  | nil => simp
  | cons c rest => simp [hmarks c (hrest c rest rfl)]

theorem readFraction_of_closes {rest : List Char} (h : Closes rest) :
    readFraction rest = some ([], rest) := by
  unfold readFraction
  split
  · exact absurd (h _ _ rfl) (by decide)
  · rfl

theorem readExponent_of_closes {rest : List Char} (h : Closes rest) :
    readExponent rest = some (none, rest) := by
  cases rest with
  | nil => rfl
  | cons c rest =>
    have hmarks : ∀ d ∈ [',', ']', '\x7d'], ¬ (d = 'e' ∨ d = 'E') :=
      Text.forall_mem_of_all (by decide)
    unfold readExponent
    simp only [hmarks c (h c rest rfl), if_false]

theorem numberOf?_toDigits {n : Int} (hlow : Text.i64Min ≤ n) (hhigh : n ≤ Text.u64Max) :
    numberOf? (decide (n < 0)) (Nat.toDigits 10 n.natAbs) [] none = some (.int n) := by
  unfold numberOf?
  simp only [Nat.ofDigitChars_ten_toDigits, List.isEmpty_nil, Option.isSome_none, Bool.not_true,
    Bool.or_self, Bool.false_eq_true, if_false]
  by_cases hneg : n < 0
  · have hfits : (decide (n.natAbs = 0) || decide (-(n.natAbs : Int) < Text.i64Min)) = false := by
      rw [Bool.or_eq_false_iff, decide_eq_false_iff_not, decide_eq_false_iff_not]
      omega
    rw [if_pos (decide_eq_true hneg), hfits, if_neg Bool.false_ne_true]
    congr 2
    omega
  · rw [if_neg (by simpa using hneg), if_neg (by omega)]
    congr 2
    omega

theorem digits_ne_minus (n : Nat) (rest cs : List Char) :
    Nat.toDigits 10 n ++ rest ≠ '-' :: cs := by
  obtain ⟨c, ds, hds⟩ := List.exists_cons_of_ne_nil (Nat.toDigits_ne_nil (n := n) (b := 10))
  have hdigit : c.isDigit = true := isDigit_of_mem_toDigits (hds ▸ List.mem_cons_self)
  rw [hds, List.cons_append]
  intro heq
  rw [(List.cons.inj heq).1] at hdigit
  cases hdigit

theorem readNumber_intText {n : Int} (hlow : Text.i64Min ≤ n) (hhigh : n ≤ Text.u64Max)
    {rest : List Char} (hrest : Closes rest) :
    readNumber (intText n ++ rest) = some (.int n, rest) := by
  have hvalue := numberOf?_toDigits hlow hhigh
  unfold intText readNumber
  by_cases hneg : n < 0
  · rw [decide_eq_true hneg] at hvalue
    simp only [if_pos hneg, List.cons_append, spanDigits_toDigits _ hrest, no_leading_zero,
      readFraction_of_closes hrest, Option.bind_eq_bind, Option.bind_some,
      readExponent_of_closes hrest, hvalue, Bool.false_eq_true, if_false, Option.pure_def]
  · rw [decide_eq_false hneg] at hvalue
    simp only [if_neg hneg]
    split
    · rename_i hminus
      exact absurd hminus (digits_ne_minus _ _ _)
    · simp only [spanDigits_toDigits _ hrest, no_leading_zero, readFraction_of_closes hrest,
        Option.bind_eq_bind, Option.bind_some, readExponent_of_closes hrest, hvalue,
        Bool.false_eq_true, if_false, Option.pure_def]

/-! ## Values -/

/-- Arrays and objects nest at most so deep, integers have 64 bits, and there are no floats. -/
def Fits : Nat → Json → Prop
  | _, .null | _, .bool _ | _, .str _ => True
  | _, .int n => Text.i64Min ≤ n ∧ n ≤ Text.u64Max
  | _, .float _ => False
  | 0, .arr _ | 0, .obj _ => False
  | depth + 1, .arr items => ∀ v ∈ items, Fits depth v
  | depth + 1, .obj members => ∀ m ∈ members, Fits depth m.2

theorem not_fits_float (depth : Nat) (x : Number.Binary64) : ¬ Fits depth (.float x) := by
  cases depth <;> exact id

theorem fits_str (depth : Nat) (s : String) : Fits depth (.str s) := by
  unfold Fits
  trivial

theorem fits_ofNat {depth n : Nat} (h : n ≤ Text.u64Max) : Fits depth (.ofNat n) := by
  have hlow : Text.i64Min ≤ 0 := by decide
  unfold ofNat Fits
  omega

theorem fits_present {depth : Nat} {ms : List (String × Option Json)}
    (h : ∀ m ∈ ms, ∀ v, m.2 = some v → Fits depth v) : Fits (depth + 1) (.obj (present ms)) := by
  unfold Fits
  intro m hm
  obtain ⟨⟨name, v?⟩, hmem, hm⟩ := List.mem_filterMap.mp hm
  obtain ⟨v, hv, rfl⟩ := Option.map_eq_some_iff.mp hm
  exact h _ hmem v hv

/-- Neither an array nor an object. -/
def isScalar : Json → Bool
  | .arr _ | .obj _ => false
  | _ => true

theorem intText_cons (n : Int) : ∃ c cs, intText n = c :: cs ∧ (c = '-' ∨ c.isDigit = true) := by
  unfold intText
  by_cases hneg : n < 0
  · exact ⟨'-', _, if_pos hneg, .inl rfl⟩
  · obtain ⟨c, cs, hcs⟩ :=
      List.exists_cons_of_ne_nil (Nat.toDigits_ne_nil (n := n.natAbs) (b := 10))
    exact ⟨c, cs, by rw [if_neg hneg, hcs],
      .inr (isDigit_of_mem_toDigits (hcs ▸ List.mem_cons_self))⟩

theorem number_head {c : Char} (hc : c = '-' ∨ c.isDigit = true) :
    isGap c = false ∧ c ≠ ']' ∧ c ≠ '[' ∧ c ≠ '\x7b' := by
  rcases hc with rfl | hc
  · decide
  · have hmarks : ∀ d ∈ [' ', '\n', '\r', '\t', ']', '[', '\x7b'], d.isDigit = false :=
      Text.forall_mem_of_all (by decide)
    simp only [isGap, Bool.or_eq_false_iff, decide_eq_false_iff_not]
    refine ⟨⟨⟨⟨?_, ?_⟩, ?_⟩, ?_⟩, ?_, ?_, ?_⟩ <;>
    · rintro rfl
      rw [hmarks _ (by decide)] at hc
      cases hc

/-- A value begins with a character of its own, and only an array or an object with a bracket. -/
theorem write_cons {depth : Nat} {v : Json} (h : v.Fits depth) :
    ∃ c cs, v.write = c :: cs ∧ isGap c = false ∧ c ≠ ']' ∧
      (v.isScalar = true → c ≠ '[' ∧ c ≠ '\x7b') := by
  match v, h with
  | .null, _ => exact ⟨'n', _, rfl, by decide, by decide, fun _ => by decide⟩
  | .bool true, _ => exact ⟨'t', _, rfl, by decide, by decide, fun _ => by decide⟩
  | .bool false, _ => exact ⟨'f', _, rfl, by decide, by decide, fun _ => by decide⟩
  | .float x, h => exact absurd h (not_fits_float depth x)
  | .int n, _ =>
    obtain ⟨c, cs, hcs, hc⟩ := intText_cons n
    obtain ⟨hgap, hclose, hopen⟩ := number_head hc
    exact ⟨c, cs, hcs, hgap, hclose, fun _ => hopen⟩
  | .str s, _ => exact ⟨'"', _, rfl, by decide, by decide, fun _ => by decide⟩
  | .arr [], _ | .arr (_ :: _), _ =>
    exact ⟨'[', _, rfl, by decide, by decide, fun hscalar => by cases hscalar⟩
  | .obj [], _ | .obj (_ :: _), _ =>
    exact ⟨'\x7b', _, rfl, by decide, by decide, fun hscalar => by cases hscalar⟩

theorem number_head_ne {c d : Char} (hc : c = '-' ∨ c.isDigit = true)
    (hd : d ∈ ['n', 't', 'f', '"']) {cs rest : List Char} : c :: cs ≠ d :: rest := by
  have hletters : ∀ d ∈ ['n', 't', 'f', '"'], ¬ (d = '-' ∨ d.isDigit = true) :=
    Text.forall_mem_of_all (by decide)
  intro h
  exact hletters d hd ((List.cons.inj h).1 ▸ hc)

theorem readScalar_of_number {c : Char} {cs : List Char} (hc : c = '-' ∨ c.isDigit = true) :
    readScalar (c :: cs) = readNumber (c :: cs) := by
  rw [readScalar]
  · exact fun _ => number_head_ne hc (by decide)
  · exact fun _ => number_head_ne hc (by decide)
  · exact fun _ => number_head_ne hc (by decide)
  · exact fun _ => number_head_ne hc (by decide)

theorem readScalar_write {depth : Nat} {v : Json} (h : v.Fits depth) (hscalar : v.isScalar = true)
    {rest : List Char} (hrest : Closes rest) :
    readScalar (v.write ++ rest) = some (v, rest) := by
  match v, h with
  | .null, _ | .bool true, _ | .bool false, _ => rfl
  | .float x, h => exact absurd h (not_fits_float depth x)
  | .int n, h =>
    have hnumber : readScalar (intText n ++ rest) = readNumber (intText n ++ rest) := by
      obtain ⟨c, cs, hcs, hc⟩ := intText_cons n
      rw [hcs]
      exact readScalar_of_number hc
    unfold Fits at h
    unfold write
    rw [hnumber, readNumber_intText h.1 h.2 hrest]
  | .str s, _ =>
    unfold write
    rw [quoted_append]
    simp only [readScalar, readString_quoted, Option.map_some]
  | .arr _, _ | .obj _, _ => cases hscalar

theorem readValue_scalar {depth : Nat} {v : Json} (h : v.Fits depth) (hscalar : v.isScalar = true)
    {rest : List Char} (hrest : Closes rest) :
    readValue depth (v.write ++ rest) = some (v, rest) := by
  obtain ⟨c, cs, hcs, hgap, -, hopen⟩ := write_cons h
  have hread := readScalar_write h hscalar hrest
  rw [hcs, List.cons_append] at hread ⊢
  cases depth with
  | zero => rw [readValue, skipGaps_cons hgap, hread]
  | succ depth =>
    rw [readValue, skipGaps_cons hgap]
    split
    · rename_i heq
      exact absurd (List.cons.inj heq).1 (hopen hscalar).1
    · rename_i heq
      exact absurd (List.cons.inj heq).1 (hopen hscalar).2
    · exact hread

/-! ## Arrays and objects -/

theorem length_le_writeItems (items : List Json) : items.length ≤ (writeItems items).length := by
  induction items with
  | nil => simp
  | cons v rest ih => simp [writeItems]; omega

theorem length_le_writeMembers (ms : List (String × Json)) :
    ms.length ≤ (writeMembers ms).length := by
  induction ms with
  | nil => simp
  | cons m rest ih => simp [writeMembers]; omega

theorem closes_writeItems (items : List Json) (rest : List Char) :
    Closes (writeItems items ++ rest) := by
  cases items <;> exact .cons (by decide) _

theorem closes_writeMembers (ms : List (String × Json)) (rest : List Char) :
    Closes (writeMembers ms ++ rest) := by
  cases ms <;> exact .cons (by decide) _

theorem readItems_write {item : List Char → Option (Json × List Char)} {v : Json}
    {items : List Json} (hitem : ∀ u ∈ v :: items, ∀ rest, Closes rest →
      item (u.write ++ rest) = some (u, rest))
    {fuel : Nat} (hfuel : items.length < fuel) (done : List Json) (rest : List Char) :
    readItems item fuel done (v.write ++ (writeItems items ++ rest)) =
      some (done.reverse ++ v :: items, rest) := by
  obtain ⟨fuel, rfl⟩ : ∃ n, fuel = n + 1 := ⟨fuel - 1, by omega⟩
  have hclose := closes_writeItems items rest
  have hfirst := hitem v List.mem_cons_self _ hclose
  induction items generalizing v fuel done with
  | nil =>
    unfold readItems
    simp only [hfirst, hclose.skipGaps]
    simp [writeItems]
  | cons u items ih =>
    obtain ⟨fuel, rfl⟩ : ∃ n, fuel = n + 1 := ⟨fuel - 1, by simp at hfuel; omega⟩
    rw [List.forall_mem_cons] at hitem
    have hclose' := closes_writeItems items rest
    have hnext := ih hitem.2 (v :: done) fuel (by simp at hfuel; omega) hclose'
      (hitem.2 u List.mem_cons_self _ hclose')
    rw [readItems]
    simp only [hfirst, hclose.skipGaps]
    simp only [writeItems, List.cons_append, List.append_assoc, hnext]
    simp

theorem readMembers_write {item : List Char → Option (Json × List Char)} {m : String × Json}
    {ms : List (String × Json)} (hitem : ∀ u ∈ m :: ms, ∀ rest, Closes rest →
      item (u.2.write ++ rest) = some (u.2, rest))
    {fuel : Nat} (hfuel : ms.length < fuel) (done : List (String × Json)) (rest : List Char) :
    readMembers item fuel done (quoted m.1 ++ ':' :: (m.2.write ++ (writeMembers ms ++ rest))) =
      some (done.reverse ++ m :: ms, rest) := by
  obtain ⟨fuel, rfl⟩ : ∃ n, fuel = n + 1 := ⟨fuel - 1, by omega⟩
  have hclose := closes_writeMembers ms rest
  have hfirst := hitem m List.mem_cons_self _ hclose
  have hquote : isGap '"' = false := rfl
  have hcolon : isGap ':' = false := rfl
  induction ms generalizing m fuel done with
  | nil =>
    rw [quoted_append]
    unfold readMembers
    simp only [skipGaps_cons hquote, readString_quoted, skipGaps_cons hcolon, hfirst,
      hclose.skipGaps]
    simp [writeMembers]
  | cons u ms ih =>
    obtain ⟨fuel, rfl⟩ : ∃ n, fuel = n + 1 := ⟨fuel - 1, by simp at hfuel; omega⟩
    rw [List.forall_mem_cons] at hitem
    have hclose' := closes_writeMembers ms rest
    have hnext := ih hitem.2 (m :: done) fuel (by simp at hfuel; omega) hclose'
      (hitem.2 u List.mem_cons_self _ hclose')
    rw [quoted_append, readMembers]
    simp only [skipGaps_cons hquote, readString_quoted, skipGaps_cons hcolon, hfirst,
      hclose.skipGaps]
    simp only [writeMembers, List.cons_append, List.append_assoc, hnext]
    simp

theorem readValue_items {depth : Nat} {items : List Json} (hfits : ∀ v ∈ items, v.Fits depth)
    (hitem : ∀ v ∈ items, ∀ rest, Closes rest → readValue depth (v.write ++ rest) = some (v, rest))
    (rest : List Char) :
    readValue (depth + 1) ((Json.arr items).write ++ rest) = some (.arr items, rest) := by
  have hopen : isGap '[' = false ∧ isGap ']' = false := by decide
  cases items with
  | nil =>
    simp only [write, List.cons_append, List.nil_append]
    rw [readValue, skipGaps_cons hopen.1]
    simp only [skipGaps_cons hopen.2]
  | cons v items =>
    obtain ⟨c, cs, hcs, hgap, hne, -⟩ := write_cons (hfits v List.mem_cons_self)
    have hlen := length_le_writeItems items
    have hfuel : items.length < (v.write ++ (writeItems items ++ rest)).length + 1 := by
      simp
      omega
    have hitems := readItems_write hitem hfuel [] rest
    simp only [write, List.cons_append, List.append_assoc]
    rw [readValue, skipGaps_cons hopen.1]
    rw [hcs, List.cons_append] at hitems ⊢
    simp only [skipGaps_cons hgap]
    split
    · rename_i heq
      exact absurd (List.cons.inj heq).1 hne
    · rw [hitems]
      rfl

theorem readValue_members {depth : Nat} {ms : List (String × Json)}
    (hmember : ∀ m ∈ ms, ∀ rest, Closes rest →
      readValue depth (m.2.write ++ rest) = some (m.2, rest)) (rest : List Char) :
    readValue (depth + 1) ((Json.obj ms).write ++ rest) = some (.obj ms, rest) := by
  have hopen : isGap '\x7b' = false ∧ isGap '\x7d' = false ∧ isGap '"' = false := by decide
  match ms, hmember with
  | [], _ =>
    simp only [write, List.cons_append, List.nil_append]
    rw [readValue, skipGaps_cons hopen.1]
    simp only [skipGaps_cons hopen.2.1]
  | (n, v) :: ms, hmember =>
    have hlen := length_le_writeMembers ms
    have hfuel : ms.length <
        (quoted n ++ ':' :: (v.write ++ (writeMembers ms ++ rest))).length + 1 := by
      simp
      omega
    have hmembers := readMembers_write hmember hfuel [] rest
    simp only [write, List.cons_append, List.append_assoc]
    rw [readValue, skipGaps_cons hopen.1]
    rw [quoted_append] at hmembers ⊢
    simp only [skipGaps_cons hopen.2.2]
    split
    · rename_i heq
      cases (List.cons.inj heq).1
    · rw [hmembers]
      rfl

theorem readValue_write {depth : Nat} {v : Json} (h : v.Fits depth) {rest : List Char}
    (hrest : Closes rest) : readValue depth (v.write ++ rest) = some (v, rest) := by
  induction depth generalizing v rest with
  | zero =>
    match v, h with
    | .null, h | .bool _, h | .int _, h | .str _, h => exact readValue_scalar h rfl hrest
  | succ depth ih =>
    match v, h with
    | .null, h | .bool _, h | .int _, h | .str _, h => exact readValue_scalar h rfl hrest
    | .arr items, h =>
      unfold Fits at h
      exact readValue_items h (fun v hv rest hrest => ih (h v hv) hrest) rest
    | .obj ms, h =>
      unfold Fits at h
      exact readValue_members (fun m hm rest hrest => ih (h m hm) hrest) rest

theorem read?_text {v : Json} (h : v.Fits maxDepth) : read? v.text = some v := by
  have hread := readValue_write h .nil
  unfold read? text
  rw [List.append_nil] at hread
  rw [String.toList_ofList, hread]
  rfl

end Cadence.Json
