import Cadence.Proofs.Schedule.Blanks

/-!
# One space is as good as any gap

The reader skips the gaps between fields and does not look at them. So it reads a text with one
space for each run of gaps like the text itself: every reader commutes with squeezing the gaps. And
what it has read past holds no other blanks than gaps, since no field has one in it.
-/

namespace Cadence.Schedule

variable {c : Component} {cs rest : List Char} {ch : Char}

/-! ## Squeezing -/

/-- The text with one space for each run of gaps. -/
def squeeze : List Char → List Char
  | [] => []
  | ch :: cs =>
    if isGap ch then
      if cs.head?.any isGap then squeeze cs else ' ' :: squeeze cs
    else ch :: squeeze cs

theorem skipGaps_of_gap (h : isGap ch = true) (cs : List Char) : skipGaps (ch :: cs) = skipGaps cs :=
  List.dropWhile_cons_of_pos h

theorem squeeze_of_char (h : isGap ch = false) (cs : List Char) :
    squeeze (ch :: cs) = ch :: squeeze cs := by
  simp [squeeze, h]

theorem squeeze_of_gap (h : isGap ch = true) (cs : List Char) :
    squeeze (ch :: cs) = ' ' :: squeeze (skipGaps cs) := by
  induction cs generalizing ch with
  | nil => simp [squeeze, h, skipGaps]
  | cons d ds ih =>
    cases hd : isGap d with
    | true =>
      rw [skipGaps_of_gap hd, ← ih hd]
      simp [squeeze, h, hd]
    | false =>
      rw [skipGaps_of_noHead (.cons hd)]
      simp [squeeze, h, hd]

theorem squeeze_noGap_append {front : List Char} (h : NoGap front) (cs : List Char) :
    squeeze (front ++ cs) = front ++ squeeze cs := by
  induction front with
  | nil => rfl
  | cons ch front ih =>
    rw [List.cons_append, squeeze_of_char (h ch List.mem_cons_self), ih h.behind, List.cons_append]

theorem NoHead.squeeze (h : NoHead isGap cs) : NoHead isGap (squeeze cs) := by
  cases cs with
  | nil => exact .nil _
  | cons ch cs =>
    have hch := h ch cs rfl
    rw [squeeze_of_char hch]
    exact .cons hch

@[simp] theorem skipGaps_squeeze (cs : List Char) : skipGaps (squeeze cs) = squeeze (skipGaps cs) := by
  have hrest := skipGaps_of_noHead (skipGaps_noHead cs).squeeze
  cases cs with
  | nil => rfl
  | cons ch cs =>
    cases hch : isGap ch with
    | true =>
      rw [skipGaps_of_gap hch] at hrest ⊢
      rw [squeeze_of_gap hch]
      exact hrest
    | false =>
      rw [skipGaps_of_noHead (.cons hch), squeeze_of_char hch]
      exact skipGaps_of_noHead (.cons hch)

theorem span_squeeze {p : Char → Bool} (hword : ∀ ch, p ch = true → ch.isAlphanum = true)
    (cs : List Char) :
    (squeeze cs).takeWhile p = cs.takeWhile p ∧
      (squeeze cs).dropWhile p = squeeze (cs.dropWhile p) := by
  have hgap (ch : Char) (hch : isGap ch = true) : p ch = false := by
    by_contra hp
    rw [(ne_of_isAlphanum (hword ch (by simpa using hp))).1] at hch
    cases hch
  induction cs with
  | nil => exact ⟨rfl, rfl⟩
  | cons ch cs ih =>
    cases hch : isGap ch with
    | true => simp [squeeze_of_gap hch, hgap ch hch, hgap ' ' rfl]
    | false =>
      rw [squeeze_of_char hch]
      cases hp : p ch with
      | true => simp [hp, ih]
      | false => simp [hp, squeeze_of_char hch]

/-! ## Reading what is squeezed -/

/-- What is read, with the rest squeezed. -/
def squeezed {α : Type} (read : Option (α × List Char)) : Option (α × List Char) :=
  read.map fun (a, rest) => (a, squeeze rest)

@[simp] theorem squeezed_none {α : Type} : squeezed (none : Option (α × List Char)) = none := rfl

@[simp] theorem squeezed_some {α : Type} (a : α) (rest : List Char) :
    squeezed (some (a, rest)) = some (a, squeeze rest) := rfl

theorem readNumber_squeeze (cs : List Char) : readNumber (squeeze cs) = squeezed (readNumber cs) := by
  obtain ⟨hdigits, hrest⟩ := span_squeeze (fun _ => Text.isAlphanum_of_isDigit) (skipGaps cs)
  unfold readNumber Text.spanDigits
  simp only [skipGaps_squeeze, hdigits, hrest]
  cases Text.natOf? ((skipGaps cs).takeWhile Char.isDigit) with
  | none => rfl
  | some n =>
    simp only [Option.bind_some]
    split <;> rfl

theorem readName_squeeze (cs : List Char) : readName (squeeze cs) = squeezed (readName cs) := by
  obtain ⟨hletters, hrest⟩ := span_squeeze (fun _ => Text.isAlphanum_of_isAlpha) (skipGaps cs)
  unfold readName
  simp only [skipGaps_squeeze, hletters, hrest]
  split <;> rfl

theorem mark_cases (mark : Char) (hmark : isGap mark = false) (cs : List Char) :
    (∃ after, cs = mark :: after) ∨ NoHead (· = mark) cs ∧ NoHead (· = mark) (squeeze cs) := by
  cases cs with
  | nil => exact .inr ⟨.nil _, .nil _⟩
  | cons ch cs =>
    by_cases hch : ch = mark
    · exact .inl ⟨cs, by rw [hch]⟩
    refine .inr ⟨.cons (by simpa using hch), ?_⟩
    cases hgap : isGap ch with
    | true =>
      have hspace : ' ' ≠ mark := by
        rintro rfl
        cases hmark
      rw [squeeze_of_gap hgap]
      exact .cons (by simpa using hspace)
    | false =>
      rw [squeeze_of_char hgap]
      exact .cons (by simpa using hch)

theorem readAfterDash_squeeze {α : Type} {read : List Char → Option (α × List Char)}
    (hread : ∀ cs, read (squeeze cs) = squeezed (read cs)) (cs : List Char) :
    readAfterDash read (squeeze cs) = squeezed (readAfterDash read cs) := by
  rcases mark_cases '-' rfl cs with ⟨after, rfl⟩ | ⟨hcs, hsqueezed⟩
  · rw [squeeze_of_char rfl]
    exact hread after
  · rw [readAfterDash_eq_none hcs, readAfterDash_eq_none hsqueezed]
    rfl

theorem readSpecifier_of_noMark (hstar : NoHead (· = '*') cs) (hmark : NoHead (· = '?') cs) :
    readSpecifier c cs =
      match readNumber cs with
      | some (n, rest) =>
        match readAfterDash readNumber rest with
        | some (m, rest) => some (.range n m, rest)
        | none => some (.point n, rest)
      | none =>
        (readName cs).bind fun (a, rest) =>
          (readAfterDash readName rest).map fun (b, rest) => (.namedRange a b, rest) := by
  unfold readSpecifier
  split
  · have := hstar '*' _ rfl
    simp at this
  · have := hmark '?' _ rfl
    simp at this
  · rfl

theorem readSpecifier_squeeze (c : Component) (cs : List Char) :
    readSpecifier c (squeeze cs) = squeezed (readSpecifier c cs) := by
  rcases mark_cases '*' rfl cs with ⟨after, rfl⟩ | ⟨hstar, hstar'⟩
  · rw [squeeze_of_char rfl]
    rfl
  rcases mark_cases '?' rfl cs with ⟨after, rfl⟩ | ⟨hany, hany'⟩
  · rw [squeeze_of_char rfl]
    simp only [readSpecifier]
    split <;> rfl
  rw [readSpecifier_of_noMark hstar hany, readSpecifier_of_noMark hstar' hany', readNumber_squeeze]
  cases readNumber cs with
  | some number =>
    obtain ⟨n, rest⟩ := number
    simp only [squeezed_some, readAfterDash_squeeze readNumber_squeeze]
    cases readAfterDash readNumber rest <;> rfl
  | none =>
    simp only [squeezed_none, readName_squeeze]
    cases readName cs with
    | none => rfl
    | some name =>
      obtain ⟨a, rest⟩ := name
      simp only [squeezed_some, Option.bind_some, readAfterDash_squeeze readName_squeeze]
      cases readAfterDash readName rest <;> rfl

theorem readItem_squeeze (c : Component) (cs : List Char) :
    readItem c (squeeze cs) = squeezed (readItem c cs) := by
  cases hread : readSpecifier c cs with
  | none =>
    have hsqueezed := readSpecifier_squeeze c cs
    rw [hread, squeezed_none] at hsqueezed
    unfold readItem
    simp only [hread, hsqueezed, readName_squeeze]
    cases readName cs <;> rfl
  | some specifier =>
    obtain ⟨s, rest⟩ := specifier
    have hsqueezed := readSpecifier_squeeze c cs
    rw [hread, squeezed_some] at hsqueezed
    rcases mark_cases '/' rfl rest with ⟨after, rfl⟩ | ⟨hrest, hrest'⟩
    · rw [squeeze_of_char rfl] at hsqueezed
      unfold readItem
      simp only [hread, hsqueezed, readNumber_squeeze]
      cases readNumber after with
      | none => exact congrArg _ (congrArg _ (squeeze_of_char rfl after).symm)
      | some number => rfl
    · rw [readItem_of_plain hread hrest, readItem_of_plain hsqueezed hrest', squeezed_some]

theorem readItems_squeeze (c : Component) (fuel : Nat) (cs : List Char) :
    readItems c fuel (squeeze cs) =
      ((readItems c fuel cs).1, squeeze (readItems c fuel cs).2) := by
  induction fuel generalizing cs with
  | zero => rfl
  | succ fuel ih =>
    rcases mark_cases ',' rfl cs with ⟨after, rfl⟩ | ⟨hcs, hsqueezed⟩
    · rw [squeeze_of_char rfl]
      simp only [readItems, readItem_squeeze]
      cases readItem c after with
      | none => exact congrArg _ (squeeze_of_char rfl after).symm
      | some item =>
        obtain ⟨item, rest⟩ := item
        simp only [squeezed_some, ih]
    · rw [readItems_of_noHead hcs, readItems_of_noHead hsqueezed]

/-! ## What is read past -/

/-- The rest of a text behind a front that has no other blanks than gaps. -/
def Passes (cs rest : List Char) : Prop :=
  ∃ front, cs = front ++ rest ∧ ∀ ch ∈ front, Text.isBlank ch = true → isGap ch = true

variable {ds : List Char}

theorem Passes.refl (cs : List Char) : Passes cs cs := ⟨[], rfl, nofun⟩

theorem Passes.trans (h : Passes cs ds) (h' : Passes ds rest) : Passes cs rest := by
  obtain ⟨front, rfl, hfront⟩ := h
  obtain ⟨front', rfl, hfront'⟩ := h'
  exact ⟨front ++ front', (List.append_assoc _ _ _).symm, List.forall_mem_append.mpr ⟨hfront, hfront'⟩⟩

theorem Passes.length_le (h : Passes cs rest) : rest.length ≤ cs.length := by
  obtain ⟨front, rfl, -⟩ := h
  rw [List.length_append]
  omega

theorem passes_mark (hch : Text.isBlank ch = false) (cs : List Char) : Passes (ch :: cs) cs :=
  ⟨[ch], rfl, by simp [hch]⟩

theorem passes_dropWhile {p : Char → Bool}
    (hp : ∀ ch, p ch = true → Text.isBlank ch = true → isGap ch = true) (cs : List Char) :
    Passes cs (cs.dropWhile p) :=
  ⟨cs.takeWhile p, List.takeWhile_append_dropWhile.symm,
    fun ch hch => hp ch (List.mem_takeWhile_imp hch)⟩

theorem passes_skipGaps (cs : List Char) : Passes cs (skipGaps cs) :=
  passes_dropWhile (fun _ h _ => h) cs

theorem passes_word {p : Char → Bool} (hword : ∀ ch, p ch = true → ch.isAlphanum = true)
    (cs : List Char) : Passes cs (cs.dropWhile p) := by
  apply passes_dropWhile
  intro ch hch hblank
  have hnot := not_isAlphanum_of_isBlank hblank
  rw [hword ch hch] at hnot
  cases hnot

theorem passes_readNumber {n : Nat} (h : readNumber cs = some (n, rest)) : Passes cs rest := by
  unfold readNumber Text.spanDigits at h
  simp only [Option.bind_eq_some_iff] at h
  obtain ⟨m, -, h⟩ := h
  split at h
  · cases h
    exact (passes_skipGaps cs).trans ((passes_word (fun _ => Text.isAlphanum_of_isDigit) _).trans
      (passes_skipGaps _))
  · cases h

theorem passes_readName {name : List Char} (h : readName cs = some (name, rest)) :
    Passes cs rest := by
  unfold readName at h
  simp only at h
  split at h
  · cases h
  · cases h
    exact (passes_skipGaps cs).trans ((passes_word (fun _ => Text.isAlphanum_of_isAlpha) _).trans
      (passes_skipGaps _))

theorem passes_readAfterDash {α : Type} {read : List Char → Option (α × List Char)} {a : α}
    (hread : ∀ {cs a rest}, read cs = some (a, rest) → Passes cs rest)
    (h : readAfterDash read cs = some (a, rest)) : Passes cs rest := by
  unfold readAfterDash at h
  split at h
  · exact (passes_mark rfl _).trans (hread h)
  · cases h

theorem passes_readSpecifier {s : Specifier} (h : readSpecifier c cs = some (s, rest)) :
    Passes cs rest := by
  unfold readSpecifier at h
  split at h
  · cases h
    exact passes_mark rfl _
  · split at h
    · cases h
      exact passes_mark rfl _
    · cases h
  · split at h
    · rename_i hnumber
      split at h
      · rename_i hdash
        cases h
        exact (passes_readNumber hnumber).trans (passes_readAfterDash passes_readNumber hdash)
      · cases h
        exact passes_readNumber hnumber
    · simp only [Option.bind_eq_some_iff, Option.map_eq_some_iff] at h
      obtain ⟨⟨a, after⟩, hname, ⟨b, behind⟩, hdash, h⟩ := h
      cases h
      exact (passes_readName hname).trans (passes_readAfterDash passes_readName hdash)

theorem passes_readItem {i : Item} (h : readItem c cs = some (i, rest)) : Passes cs rest := by
  unfold readItem at h
  split at h
  · rename_i hspecifier
    have hpassed := passes_readSpecifier hspecifier
    split at h
    · split at h
      · rename_i hstep
        cases h
        exact hpassed.trans ((passes_mark rfl _).trans (passes_readNumber hstep))
      · cases h
        exact hpassed
    · cases h
      exact hpassed
  · rw [Option.map_eq_some_iff] at h
    obtain ⟨⟨name, after⟩, hname, h⟩ := h
    cases h
    exact passes_readName hname

theorem passes_readItems (c : Component) (fuel : Nat) (cs : List Char) :
    Passes cs (readItems c fuel cs).2 := by
  induction fuel generalizing cs with
  | zero => exact .refl cs
  | succ fuel ih =>
    unfold readItems
    split
    · split
      · rename_i hitem
        exact (passes_mark rfl _).trans ((passes_readItem hitem).trans (ih _))
      · exact .refl _
    · exact .refl _

theorem passes_readField {f : Field} (h : readField c cs = some (f, rest)) : Passes cs rest := by
  unfold readField readList at h
  simp only [Option.bind_eq_some_iff, Option.map_eq_some_iff] at h
  obtain ⟨⟨items, after⟩, ⟨⟨i, rest'⟩, hitem, hitems⟩, f', -, h⟩ := h
  cases h
  cases hitems
  exact (passes_skipGaps cs).trans ((passes_readItem hitem).trans
    ((passes_readItems c _ _).trans (passes_skipGaps _)))

theorem Reads.passes {comps : List Component} {fs : List Field} (h : Reads comps cs fs) :
    Passes cs [] := by
  induction h with
  | nil => exact .refl []
  | cons hread _ ih => exact (passes_readField hread).trans ih

theorem isGap_of_ofFields? {s : Schedule} (h : ofFields? cs = some s) :
    ∀ ch ∈ cs, Text.isBlank ch = true → isGap ch = true := by
  have hpasses : Passes cs [] := by
    rcases reads_of_ofFields? h with hreads | hreads
    · exact hreads.passes
    · exact hreads.passes
  obtain ⟨front, rfl, hfront⟩ := hpasses
  rwa [List.append_nil]

/-! ## Schedules of squeezed texts -/

theorem readItems_eq_of_le {fuel fuel' : Nat} (hfuel : cs.length ≤ fuel) (hfuel' : cs.length ≤ fuel') :
    readItems c fuel cs = readItems c fuel' cs := by
  induction fuel generalizing fuel' cs with
  | zero =>
    rw [List.eq_nil_of_length_eq_zero (Nat.le_zero.mp hfuel), readItems_of_noHead (.nil _),
      readItems_of_noHead (.nil _)]
  | succ fuel ih =>
    rcases mark_cases ',' rfl cs with ⟨after, rfl⟩ | ⟨hcs, -⟩
    · cases fuel' with
      | zero => cases hfuel'
      | succ fuel' =>
        rw [List.length_cons, Nat.add_le_add_iff_right] at hfuel hfuel'
        cases hitem : readItem c after with
        | none => simp only [readItems, hitem]
        | some item =>
          obtain ⟨item, rest⟩ := item
          -- The comma takes one of the fuel, and the item leaves no more than it was given.
          have hshorter := (passes_readItem hitem).length_le
          simp only [readItems, hitem, ih (hshorter.trans hfuel) (hshorter.trans hfuel')]
    · rw [readItems_of_noHead hcs, readItems_of_noHead hcs]

theorem length_squeeze_le (cs : List Char) : (squeeze cs).length ≤ cs.length := by
  induction cs with
  | nil => exact le_refl _
  | cons ch cs ih =>
    unfold squeeze
    split_ifs <;> simp only [List.length_cons] <;> omega

theorem readList_squeeze (c : Component) (cs : List Char) :
    readList c (squeeze cs) = squeezed (readList c cs) := by
  unfold readList
  rw [skipGaps_squeeze, readItem_squeeze]
  cases readItem c (skipGaps cs) with
  | none => rfl
  | some item =>
    obtain ⟨item, rest⟩ := item
    -- The fuel is the length of the rest, and the squeezed rest is shorter.
    have hfuel := readItems_eq_of_le (c := c) le_rfl (length_squeeze_le rest)
    simp [hfuel, readItems_squeeze]

theorem readField_squeeze (c : Component) (cs : List Char) :
    readField c (squeeze cs) = squeezed (readField c cs) := by
  unfold readField
  rw [readList_squeeze]
  cases readList c cs with
  | none => rfl
  | some list =>
    obtain ⟨items, rest⟩ := list
    simp only [squeezed_some, Option.bind_some]
    cases items.mapM (Item.progression? c) <;> rfl

theorem squeeze_eq_nil_iff : squeeze cs = [] ↔ cs = [] := by
  refine ⟨fun h => ?_, by rintro rfl; rfl⟩
  cases cs with
  | nil => rfl
  | cons ch cs =>
    cases hch : isGap ch with
    | true =>
      rw [squeeze_of_gap hch] at h
      cases h
    | false =>
      rw [squeeze_of_char hch] at h
      cases h

theorem fieldOf?_squeeze (c : Component) (cs : List Char) :
    fieldOf? c (squeeze cs) = fieldOf? c cs := by
  unfold fieldOf?
  rw [readField_squeeze]
  cases readField c cs with
  | none => rfl
  | some field =>
    obtain ⟨f, rest⟩ := field
    cases rest with
    | nil => rfl
    | cons ch rest =>
      have hne : squeeze (ch :: rest) ≠ [] := fun h => by cases squeeze_eq_nil_iff.mp h
      obtain ⟨d, ds, hds⟩ := List.exists_cons_of_ne_nil hne
      simp only [squeezed_some, hds]

theorem squeezed_bind {α β : Type} (read : Option (α × List Char)) (next : α × List Char → Option β) :
    (squeezed read).bind next = read.bind fun (a, rest) => next (a, squeeze rest) := by
  cases read <;> rfl

/-- A text has the schedule of its squeezed text. -/
theorem ofFields?_squeeze (cs : List Char) : ofFields? (squeeze cs) = ofFields? cs := by
  have hempty (cs : List Char) : (squeeze cs).isEmpty = cs.isEmpty := by
    rw [Bool.eq_iff_iff, List.isEmpty_iff, List.isEmpty_iff, squeeze_eq_nil_iff]
  unfold ofFields?
  simp only [Option.bind_eq_bind, readField_squeeze, squeezed_bind, hempty, fieldOf?_squeeze]

end Cadence.Schedule
