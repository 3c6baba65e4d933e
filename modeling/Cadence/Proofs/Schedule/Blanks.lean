import Cadence.Proofs.Schedule.Line

/-!
# Fields between blanks

The pieces of an expression need not be its fields, since the reader of fields finds their ends by
itself. They are, if no piece begins or ends with a comma, a dash or a slash, and no two fields run
together in one piece.
-/

namespace Cadence.Schedule

variable {c : Component} {comps : List Component} {f : Field} {fs : List Field} {ch : Char}
  {p cs rest tail : List Char} {ps : List (List Char)}

/-! ## Where no field begins -/

theorem readName_eq_none (h : NoHead Char.isAlpha (skipGaps cs)) : readName cs = none := by
  have hfront : (skipGaps cs).takeWhile Char.isAlpha = [] :=
    (span_append (List.forall_mem_nil _) h).1
  unfold readName
  simp [hfront]

theorem readField_of_strange (hcs : skipGaps cs = ch :: rest) (hword : ch.isAlphanum = false)
    (hmark : ch ≠ '*' ∧ ch ≠ '?') : readField c cs = none := by
  have hskip : skipGaps (ch :: rest) = ch :: rest := by rw [← hcs, skipGaps_skipGaps]
  have hdigit : ch.isDigit = false := by
    by_contra h
    simp [Text.isAlphanum_of_isDigit (by simpa using h)] at hword
  have halpha : ch.isAlpha = false := by
    by_contra h
    simp [Text.isAlphanum_of_isAlpha (by simpa using h)] at hword
  have hnumber : readNumber (ch :: rest) = none :=
    readNumber_eq_none (by rw [hskip]; exact .cons hdigit)
  have hname : readName (ch :: rest) = none :=
    readName_eq_none (by rw [hskip]; exact .cons halpha)
  have hitem : readItem c (ch :: rest) = none := by
    unfold readItem readSpecifier
    split
    · rename_i hread
      split at hread
      · rename_i heq
        exact absurd (List.cons.inj heq).1 hmark.1
      · rename_i heq
        exact absurd (List.cons.inj heq).1 hmark.2
      · simp [hnumber, hname] at hread
    · simp [hname]
  unfold readField readList
  rw [hcs, hitem]
  rfl

theorem readField_skipGaps (c : Component) (cs : List Char) :
    readField c (skipGaps cs) = readField c cs := by
  unfold readField readList
  rw [skipGaps_skipGaps]

/-! ## Between blanks -/

theorem not_isAlphanum_of_isBlank (h : Text.isBlank ch = true) : ch.isAlphanum = false := by
  unfold Text.isBlank at h
  simp only [Bool.or_eq_true, Bool.and_eq_true, decide_eq_true_eq, beq_iff_eq] at h
  have hword : ¬ (65 ≤ ch.toNat ∧ ch.toNat ≤ 90) ∧ ¬ (97 ≤ ch.toNat ∧ ch.toNat ≤ 122) ∧
      ¬ (48 ≤ ch.toNat ∧ ch.toNat ≤ 57) := by omega
  unfold Char.isAlphanum Char.isAlpha Char.isUpper Char.isLower Char.isDigit
  simpa [UInt32.le_iff_toNat_le, and_assoc] using hword

theorem isBlank_of_gaps (cs : List Char) : ∀ d ∈ cs.takeWhile isGap, Text.isBlank d = true := by
  intro d hd
  by_contra hblank
  have hgap := isBlank_of_isGap (by simpa using hblank)
  rw [List.mem_takeWhile_imp hd] at hgap
  cases hgap

theorem gaps_append (cs : List Char) : cs.takeWhile isGap ++ skipGaps cs = cs :=
  List.takeWhile_append_dropWhile

theorem pieces_skipGaps (cs : List Char) : Text.pieces (skipGaps cs) = Text.pieces cs := by
  rw [← Text.pieces_blanks_append (isBlank_of_gaps cs), gaps_append]

theorem ends_of_pieces (htail : ∀ d ∈ tail.head?, Text.isBlank d = true)
    (hps : ∀ q ∈ Text.pieces tail, OnLine q) : Ends tail := by
  have hword : NoHead Char.isAlphanum tail := by
    rintro d rest rfl
    exact not_isAlphanum_of_isBlank (htail d rfl)
  have hblank : ∀ d, continues d = true → Text.isBlank d = false := by
    intro d hd
    simp only [continues, List.mem_cons, List.not_mem_nil, or_false, decide_eq_true_eq] at hd
    rcases hd with rfl | rfl | rfl <;> rfl
  have hmark {mark : Char} (hmark : continues mark = true) :
      NoHead (· = mark) (skipGaps tail) := by
    intro d rest hskip
    by_contra heq
    obtain rfl : d = mark := by simpa using heq
    -- The character begins the next piece.
    have hfront : (skipGaps tail).dropWhile Text.isBlank = d :: rest := by
      rw [hskip, List.dropWhile_cons, hblank d hmark]
      rfl
    have hpiece := Text.pieces_of_cons hfront
    rw [pieces_skipGaps] at hpiece
    have := (hps _ (hpiece ▸ List.mem_cons_self)).noHead d _ rfl
    rw [hmark] at this
    cases this
  exact ⟨⟨hword, hmark rfl⟩, ⟨hword, hmark rfl⟩, ⟨hword, hmark rfl⟩⟩

theorem front_of_readField (hpieces : Text.pieces cs = p :: ps) (h : readField c cs = some (f, rest)) :
    ∃ tail, skipGaps cs = p ++ tail ∧ (∀ d ∈ tail.head?, Text.isBlank d = true) ∧
      Text.pieces tail = ps := by
  rw [← pieces_skipGaps] at hpieces
  obtain ⟨bs, tail, heq, hbs, htail, hps⟩ := Text.of_pieces hpieces
  cases bs with
  | nil => exact ⟨tail, heq, htail, hps⟩
  | cons b bs =>
    -- A blank that is no gap is in front, and no field begins with it.
    have hb := hbs b List.mem_cons_self
    have hmark : b ≠ '*' ∧ b ≠ '?' := by
      constructor <;> rintro rfl <;> cases hb
    rw [readField_of_strange heq (not_isAlphanum_of_isBlank hb) hmark] at h
    cases h

theorem readField_pieces (hpieces : Text.pieces cs = p :: ps) (hp : Part p) (hps : ∀ q ∈ ps, OnLine q)
    (h : readField c cs = some (f, rest)) :
    (fieldOf? c p = some f ∧ Text.pieces rest = ps) ∨
      ∃ left, Part left ∧ Text.pieces rest = left :: ps := by
  obtain ⟨tail, heq, htail, rfl⟩ := front_of_readField hpieces h
  obtain ⟨hne, hgap, hlast⟩ := hp
  rw [← readField_skipGaps, heq] at h
  rcases of_readField ⟨hgap, ends_of_pieces htail hps, .inr hlast⟩ (.inl hne) h with
    ⟨hfield, rfl⟩ | ⟨front, left, rfl, hleft, rfl⟩
  · exact .inl ⟨hfield, pieces_skipGaps tail⟩
  · have hword : ∀ d ∈ left, Text.isBlank d = false := fun d hd =>
      Text.pieces_noBlank (hpieces ▸ List.mem_cons_self) d (List.mem_append_right front hd)
    rw [List.reverse_append] at hlast
    exact .inr ⟨left, ⟨hleft, hgap.right, hlast.of_append⟩,
      Text.pieces_word_append hleft hword htail⟩

theorem Reads.front (h : Reads comps cs fs) (hcomps : comps ≠ []) :
    ∃ c f rest, readField c cs = some (f, rest) := by
  cases h with
  | nil => exact absurd rfl hcomps
  | cons hread _ => exact ⟨_, _, _, hread⟩

theorem Reads.eq_of_prefix {comps' : List Component} {fs' : List Field} (h : Reads comps cs fs)
    (h' : Reads comps' cs fs') (hfront : comps <+: comps') : comps = comps' := by
  induction h generalizing comps' fs' with
  | nil =>
    cases h' with
    | nil => rfl
    | cons hread _ => cases hread
  | @cons c comps cs rest f fs hread hrest ih =>
    cases h' with
    | nil => cases hread
    | cons hread' hrest' =>
      obtain ⟨rfl, hmore⟩ := List.cons_prefix_cons.mp hfront
      rw [hread] at hread'
      cases hread'
      rw [ih hrest' hmore]

/-- No more components than pieces: each piece is a field, and there is one for each of them. -/
theorem Reads.pieces (h : Reads comps cs fs) (hpieces : Text.pieces cs = p :: ps) (hp : Part p)
    (hps : ∀ q ∈ ps, OnLine q) (hlength : comps.length ≤ ps.length + 1) :
    comps.length = ps.length + 1 ∧
      List.Forall₂ (fun x f => fieldOf? x.1 x.2 = some f) (comps.zip (p :: ps)) fs := by
  induction h generalizing p ps with
  | nil => simp at hpieces
  | @cons c comps cs rest f fs hread hreads ih =>
    rw [List.length_cons, Nat.add_le_add_iff_right] at hlength
    rcases readField_pieces hpieces hp hps hread with ⟨hfield, hrest⟩ | ⟨left, hleft, hrest⟩
    · cases ps with
      | nil =>
        obtain rfl : comps = [] := List.eq_nil_of_length_eq_zero (Nat.le_zero.mp hlength)
        cases hreads
        exact ⟨rfl, .cons hfield .nil⟩
      | cons q qs =>
        rw [List.forall_mem_cons] at hps
        obtain ⟨hcount, hfields⟩ := ih hrest hps.1.toPart hps.2 hlength
        exact ⟨congrArg (· + 1) hcount, .cons hfield hfields⟩
    · -- A part of the piece is left, and now there are fewer components than pieces.
      obtain ⟨hcount, -⟩ := ih hrest hleft hps (Nat.le_succ_of_le hlength)
      omega

end Cadence.Schedule
