import Cadence.Json.Record
import Cadence.Proofs.Json.Decode
import Cadence.Proofs.Json.Text

/-!
# Records that are read back

A record is read from the text of an object whose members have different names: the members that are
fields are found under their names, and the others are skipped.
-/

namespace Cadence.Json

/-! ## Fields -/

/-- The field reads a value from its text. -/
def FieldReader.Reads (f : FieldReader) (v : Json) : Prop :=
  ∀ rest, Closes rest → f.read (v.write ++ rest) = .ok (v, rest)

theorem FieldReader.reads_text (name s : String) : (FieldReader.text name).Reads (.str s) := by
  intro rest _
  have hquote : isGap '"' = false := rfl
  unfold FieldReader.text
  simp only [write, quoted_append, readText, skipGaps_cons hquote, readString_quoted]
  rfl

theorem FieldReader.reads_optionalAny (name : String) {v : Json} (h : v.Fits (maxDepth - 1)) :
    (FieldReader.optionalAny name).Reads v := by
  intro rest hrest
  unfold FieldReader.optionalAny
  simp only [readAny, readValue_write h hrest, orMalformed]

/-! ## Skipping -/

theorem skipString_of_readString {done cs : List Char} {s : String} {rest : List Char}
    (h : readString done cs = some (s, rest)) : skipString cs = some rest := by
  fun_induction readString done cs with
  | case1 | case3 | case4 | case6 | case7 | case8 | case11 | case12 => cases h
  | case2 => cases h; rfl
  | case5 done a b c d n hhex hlow hhigh e f g i rest' low hhex' hlow' ih =>
    -- The two halves of a pair are skipped one after the other.
    rw [skipString, if_pos (by rw [hhex]; rfl), skipString, if_pos (by rw [hhex']; rfl)]
    exact ih h
  | case9 done a b c d rest' n hhex hlow hhigh ih =>
    rw [skipString, if_pos (by rw [hhex]; rfl)]
    exact ih h
  | case10 done c rest' hnot e hshort ih =>
    rw [skipString, if_pos (by rw [hshort]; rfl)]
    · exact ih h
    · exact hnot
  | case13 done c rest' hquote hhex hslash hcontrol ih =>
    rw [skipString, if_neg hcontrol]
    · exact ih h
    · exact hquote
    · exact hhex
    · exact hslash

theorem skipNumber_intText (n : Int) {rest : List Char} (hrest : Closes rest) :
    skipNumber (intText n ++ rest) = some rest := by
  unfold intText skipNumber
  by_cases hneg : n < 0
  · simp only [if_pos hneg, List.cons_append, spanDigits_toDigits _ hrest, no_leading_zero,
      readFraction_of_closes hrest, Option.bind_eq_bind, Option.bind_some,
      readExponent_of_closes hrest, Bool.false_eq_true, if_false, Option.pure_def]
  · simp only [if_neg hneg]
    split
    · rename_i hminus
      exact absurd hminus (digits_ne_minus _ _ _)
    · simp only [spanDigits_toDigits _ hrest, no_leading_zero, readFraction_of_closes hrest,
        Option.bind_eq_bind, Option.bind_some, readExponent_of_closes hrest, Bool.false_eq_true,
        if_false, Option.pure_def]

/-- A value that is skipped, whatever stands behind it. -/
def Skips (v : Json) : Prop := ∀ rest, Closes rest → skipValue (v.write ++ rest) = some rest

theorem skipTo_of_scalar {c : Char} {cs : List Char} (hgap : isGap c = false)
    (hopen : c ≠ '[' ∧ c ≠ '\x7b') (depth : Nat) : skipTo depth (c :: cs) = skipScalar (c :: cs) := by
  cases depth with
  | zero => rw [skipTo, skipGaps_cons hgap]
  | succ depth =>
    rw [skipTo, skipGaps_cons hgap]
    split
    · rename_i heq
      exact absurd (List.cons.inj heq).1 hopen.1
    · rename_i heq
      exact absurd (List.cons.inj heq).1 hopen.2
    · rfl

theorem skips_str (s : String) : (str s).Skips := by
  intro rest _
  unfold skipValue write
  rw [quoted_append, skipTo_of_scalar rfl (by decide)]
  exact skipString_of_readString (readString_quoted s rest)

theorem skips_int (n : Int) : (int n).Skips := by
  intro rest hrest
  obtain ⟨c, cs, hcs, hc⟩ := intText_cons n
  obtain ⟨hgap, -, hopen⟩ := number_head hc
  have hskip := skipNumber_intText n hrest
  unfold skipValue write
  rw [hcs, List.cons_append] at hskip ⊢
  rw [skipTo_of_scalar hgap hopen, skipScalar, hskip]
  · exact fun _ => number_head_ne hc (by decide)
  · exact fun _ => number_head_ne hc (by decide)
  · exact fun _ => number_head_ne hc (by decide)
  · exact fun _ => number_head_ne hc (by decide)

/-! ## Members -/

variable {fields : List FieldReader}

/-- The member is read as the field of its name, or skipped where there is none. -/
def Suits (fields : List FieldReader) (m : String × Json) : Prop :=
  match fields.find? (·.name == m.1) with
  | some f => f.Reads m.2
  | none => m.2.Skips

/-- The name is that of a field. -/
def isField (fields : List FieldReader) (name : String) : Bool :=
  (fields.find? (·.name == name)).isSome

/-- The members found so far, with one more if it is a field. -/
def kept (fields : List FieldReader) (done : List (String × Json)) (m : String × Json) :
    List (String × Json) :=
  if isField fields m.1 then m :: done else done

theorem lookup_kept (fields : List FieldReader) (done : List (String × Json)) (m : String × Json)
    (name : String) :
    (kept fields done m).lookup name =
      if isField fields name && name == m.1 then some m.2 else done.lookup name := by
  unfold kept
  by_cases hfield : isField fields m.1 = true
  · rw [if_pos hfield, List.lookup_cons]
    by_cases hname : name = m.1
    · rw [hname, hfield, beq_self_eq_true]
      rfl
    · rw [beq_false_of_ne hname, Bool.and_false]
      rfl
  · rw [if_neg hfield, if_neg]
    intro h
    rw [Bool.and_eq_true, beq_iff_eq] at h
    exact hfield (h.2 ▸ h.1)

/-- What is left of an object behind the value of a member. -/
def recordTail (fields : List FieldReader) (fuel : Nat) (done : List (String × Json)) :
    List Char → Except Fault (List (String × Json) × List Char)
  | ',' :: rest => recordMembers fields fuel done rest
  | '\x7d' :: rest => (complete fields done).map (·, rest)
  | _ => .error .malformed

theorem recordMembers_step {m : String × Json} (hsuits : Suits fields m)
    {done : List (String × Json)} (hdone : done.lookup m.1 = none) (fuel : Nat) {tail : List Char}
    (htail : Closes tail) :
    recordMembers fields (fuel + 1) done (quoted m.1 ++ ':' :: (m.2.write ++ tail)) =
      recordTail fields fuel (kept fields done m) tail := by
  have hquote : isGap '"' = false := rfl
  have hcolon : isGap ':' = false := rfl
  have hgaps := htail.skipGaps
  unfold Suits at hsuits
  rw [quoted_append, recordMembers]
  simp only [skipGaps_cons hquote, readString_quoted, orMalformed, bind, Except.bind, hdone,
    skipGaps_cons hcolon, Option.isSome_none, Bool.and_false, Bool.false_eq_true, if_false]
  unfold kept isField
  cases hfield : fields.find? (·.name == m.1) with
  | some f =>
    rw [hfield] at hsuits
    simp only [hsuits tail htail, Except.map, hgaps, Option.isSome_some, if_true]
    rfl
  | none =>
    rw [hfield] at hsuits
    simp only [hsuits tail htail, Except.map, hgaps, Option.isSome_none, Bool.false_eq_true,
      if_false]
    rfl

theorem recordMembers_write {m : String × Json} {ms : List (String × Json)}
    (hsuits : ∀ u ∈ m :: ms, Suits fields u) (hnames : ((m :: ms).map (·.1)).Nodup)
    {done : List (String × Json)} (hdone : ∀ u ∈ m :: ms, done.lookup u.1 = none)
    {fuel : Nat} (hfuel : ms.length < fuel) (rest : List Char) :
    ∃ members,
      recordMembers fields fuel done (quoted m.1 ++ ':' :: (m.2.write ++ (writeMembers ms ++ rest))) =
        (complete fields members).map (·, rest) ∧
      ∀ name, members.lookup name =
        if isField fields name then ((m :: ms).lookup name).or (done.lookup name)
        else done.lookup name := by
  obtain ⟨fuel, rfl⟩ : ∃ n, fuel = n + 1 := ⟨fuel - 1, by omega⟩
  induction ms generalizing m fuel done with
  | nil =>
    refine ⟨kept fields done m, ?_, fun name => ?_⟩
    · rw [recordMembers_step (hsuits m List.mem_cons_self) (hdone m List.mem_cons_self) fuel
        (closes_writeMembers [] rest)]
      rfl
    · rw [lookup_kept, List.lookup_cons, List.lookup_nil]
      cases isField fields name <;> cases name == m.1 <;> rfl
  | cons u ms ih =>
    rw [List.forall_mem_cons] at hsuits hdone
    rw [List.map_cons, List.nodup_cons] at hnames
    obtain ⟨fuel, rfl⟩ : ∃ n, fuel = n + 1 := ⟨fuel - 1, by simp at hfuel; omega⟩
    have hdone' : ∀ x ∈ u :: ms, (kept fields done m).lookup x.1 = none := by
      intro x hx
      have hne : (x.1 == m.1) = false :=
        beq_false_of_ne fun h => hnames.1 (h ▸ List.mem_map_of_mem hx)
      rw [lookup_kept, hne, Bool.and_false, hdone.2 x hx]
      rfl
    obtain ⟨members, hread, hlookup⟩ :=
      ih hsuits.2 hnames.2 hdone' fuel (by simp at hfuel; omega)
    refine ⟨members, ?_, fun name => ?_⟩
    · rw [recordMembers_step hsuits.1 hdone.1 _ (closes_writeMembers (u :: ms) rest), ← hread]
      simp only [writeMembers, List.cons_append, List.append_assoc, recordTail]
    · rw [hlookup, lookup_kept, List.lookup_cons (k := m.1)]
      cases hfield : isField fields name with
      | false => rfl
      | true =>
        cases hname : name == m.1 with
        | false => rfl
        | true =>
          rw [eq_of_beq hname, lookup_eq_none hnames.1]
          rfl

theorem readRecord_text {ms : List (String × Json)} (hsuits : ∀ m ∈ ms, Suits fields m)
    (hnames : (ms.map (·.1)).Nodup) :
    ∃ members, readRecord fields (obj ms).text = complete fields members ∧
      ∀ name, members.lookup name = if isField fields name then ms.lookup name else none := by
  have hbrace : isGap '\x7b' = false ∧ isGap '\x7d' = false ∧ isGap '"' = false := by decide
  have hend (members : List (String × Json)) :
      ((complete fields members).map (·, ([] : List Char))).bind (fun read =>
        if (skipGaps read.2).isEmpty then .ok read.1 else .error .malformed) =
      complete fields members := by
    cases complete fields members <;> rfl
  unfold readRecord text
  rw [String.toList_ofList]
  cases ms with
  | nil =>
    refine ⟨[], ?_, fun name => by simp⟩
    simp only [write, skipGaps_cons hbrace.1, skipGaps_cons hbrace.2.1]
    exact hend []
  | cons m ms =>
    have hlen := length_le_writeMembers ms
    have hnone : ∀ u ∈ m :: ms, ([] : List (String × Json)).lookup u.1 = none := fun _ _ => rfl
    have hfuel : ms.length <
        (quoted m.1 ++ ':' :: (m.2.write ++ (writeMembers ms ++ []))).length + 1 := by
      simp
      omega
    obtain ⟨members, hread, hlookup⟩ := recordMembers_write hsuits hnames hnone hfuel []
    refine ⟨members, ?_, fun name => by rw [hlookup, List.lookup_nil, Option.or_none]⟩
    rw [← hend members, ← hread]
    rw [List.append_nil, quoted_append]
    simp only [write, List.cons_append, List.append_assoc, skipGaps_cons hbrace.1, quoted_append,
      skipGaps_cons hbrace.2.2]
    rfl

end Cadence.Json
