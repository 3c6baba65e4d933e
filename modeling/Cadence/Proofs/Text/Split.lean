import Cadence.Text.Basic
import Mathlib.Data.List.TakeWhile

/-!
# Splitting and joining
-/

namespace Cadence.Text

variable {mark : Char} {cs : List Char}

/-! ## Parts between marks -/

theorem splitOn_eq (mark : Char) (cs : List Char) : splitOn mark cs = cs.splitOn mark := by
  induction cs with
  | nil => rfl
  | cons c cs ih =>
    unfold splitOn
    rw [ih, List.splitOn_cons_eq_if_modifyHead]
    by_cases hc : c = mark
    · rw [if_pos hc, if_pos (beq_iff_eq.mpr hc)]
    · rw [if_neg hc, if_neg (by rwa [beq_iff_eq])]
      cases h : cs.splitOn mark with
      | nil => exact absurd h (List.splitOn_ne_nil mark cs)
      | cons p ps => rfl

theorem splitOn_ne_nil : splitOn mark cs ≠ [] := by
  rw [splitOn_eq]
  exact List.splitOn_ne_nil mark cs

/-- A first part, and others with the mark in front of each. -/
def joined (mark : Char) (p : List Char) (ps : List (List Char)) : List Char :=
  p ++ ps.flatMap (mark :: ·)

theorem joined_eq (p : List Char) (ps : List (List Char)) :
    joined mark p ps = [mark].intercalate (p :: ps) := by
  unfold joined
  induction ps generalizing p with
  | nil => simp
  | cons q ps ih => rw [List.intercalate_cons_cons, ← ih]; simp

theorem mem_joined {p : List Char} {ps : List (List Char)} {c : Char} (h : c ∈ joined mark p ps) :
    c = mark ∨ ∃ q ∈ p :: ps, c ∈ q := by
  unfold joined at h
  rw [List.mem_append, List.mem_flatMap] at h
  rcases h with h | ⟨q, hq, h⟩
  · exact .inr ⟨p, List.mem_cons_self, h⟩
  · exact (List.mem_cons.mp h).imp_right fun h => ⟨q, List.mem_cons_of_mem p hq, h⟩

theorem joined_of_splitOn {p : List Char} {ps : List (List Char)} (h : splitOn mark cs = p :: ps) :
    joined mark p ps = cs := by
  rw [joined_eq, ← h, splitOn_eq, List.intercalate_splitOn]

theorem splitOn_joined {p : List Char} {ps : List (List Char)} (h : ∀ q ∈ p :: ps, mark ∉ q) :
    splitOn mark (joined mark p ps) = p :: ps := by
  rw [splitOn_eq, joined_eq, List.splitOn_intercalate mark h (List.cons_ne_nil p ps)]

theorem mem_of_mem_splitOn {p : List Char} {c : Char} (hp : p ∈ splitOn mark cs) (hc : c ∈ p) :
    c ∈ cs := by
  induction cs generalizing p with
  | nil =>
    rw [splitOn, List.mem_singleton] at hp
    exact hp ▸ hc
  | cons d cs ih =>
    unfold splitOn at hp
    split at hp
    · rcases List.mem_cons.mp hp with rfl | hp
      · cases hc
      · exact List.mem_cons_of_mem d (ih hp hc)
    · split at hp
      · rename_i h
        exact absurd h splitOn_ne_nil
      · rename_i q qs h
        rcases List.mem_cons.mp hp with rfl | hp
        · rcases List.mem_cons.mp hc with rfl | hc
          · exact List.mem_cons_self
          · exact List.mem_cons_of_mem d (ih (h ▸ List.mem_cons_self) hc)
        · exact List.mem_cons_of_mem d (ih (h ▸ List.mem_cons_of_mem q hp) hc)

theorem not_mem_of_mem_splitOn {p : List Char} (hp : p ∈ splitOn mark cs) : mark ∉ p := by
  induction cs generalizing p with
  | nil =>
    rw [splitOn, List.mem_singleton] at hp
    exact hp ▸ List.not_mem_nil
  | cons d cs ih =>
    unfold splitOn at hp
    split at hp
    · rcases List.mem_cons.mp hp with rfl | hp
      · simp
      · exact ih hp
    · rename_i hd
      split at hp
      · rename_i h
        exact absurd h splitOn_ne_nil
      · rename_i q qs h
        rcases List.mem_cons.mp hp with rfl | hp
        · rw [List.mem_cons, not_or]
          exact ⟨Ne.symm hd, ih (h ▸ List.mem_cons_self)⟩
        · exact ih (h ▸ List.mem_cons_of_mem q hp)

/-! ## The first mark -/

theorem cut_append {a b : List Char} (h : mark ∉ a) : cut mark (a ++ mark :: b) = (a, some b) := by
  have hall : ∀ c ∈ a, (c ≠ mark) := fun c hc heq => h (heq ▸ hc)
  unfold cut
  rw [List.dropWhile_append_of_pos (by simpa using hall),
    List.takeWhile_append_of_pos (by simpa using hall)]
  simp

theorem cut_of_not_mem (h : mark ∉ cs) : cut mark cs = (cs, none) := by
  have hall : ∀ c ∈ cs, (c ≠ mark) := fun c hc heq => h (heq ▸ hc)
  unfold cut
  rw [List.dropWhile_eq_nil_iff.mpr (by simpa using hall)]

theorem cut_fst (mark : Char) (cs : List Char) : (cut mark cs).1 = cs.takeWhile (· ≠ mark) := by
  unfold cut
  split
  · rename_i h
    have := List.takeWhile_append_dropWhile (p := (· ≠ mark)) (l := cs)
    rw [h, List.append_nil] at this
    exact this.symm
  · rfl

theorem cut_cases (mark : Char) (cs : List Char) :
    (mark ∉ cs ∧ cut mark cs = (cs, none)) ∨
      ∃ a b, cs = a ++ mark :: b ∧ mark ∉ a ∧ cut mark cs = (a, some b) := by
  by_cases h : mark ∈ cs
  · obtain ⟨a, b, rfl, ha⟩ := List.eq_append_cons_of_mem h
    exact .inr ⟨a, b, rfl, ha, cut_append ha⟩
  · exact .inl ⟨h, cut_of_not_mem h⟩

/-! ## The last mark -/

theorem cutLast?_append {a b : List Char} (h : mark ∉ b) :
    cutLast? mark (a ++ mark :: b) = some (a, b) := by
  have hall : ∀ c ∈ b.reverse, (c ≠ mark) := fun c hc heq => h (heq ▸ List.mem_reverse.mp hc)
  unfold cutLast?
  rw [List.reverse_append, List.reverse_cons, List.append_assoc, List.singleton_append,
    List.dropWhile_append_of_pos (by simpa using hall),
    List.takeWhile_append_of_pos (by simpa using hall)]
  simp

theorem eq_of_cutLast? {a b : List Char} (h : cutLast? mark cs = some (a, b)) :
    cs = a ++ mark :: b := by
  have hsplit := List.takeWhile_append_dropWhile (p := (· ≠ mark)) (l := cs.reverse)
  unfold cutLast? at h
  split at h
  · cases h
  · rename_i c before hbefore
    have hmark : c = mark := by
      have hhead := List.head?_dropWhile_not (fun c => decide (c ≠ mark)) cs.reverse
      rw [hbefore] at hhead
      simpa using hhead
    cases h
    rw [hbefore, hmark] at hsplit
    have hcs := congrArg List.reverse hsplit
    rw [List.reverse_append, List.reverse_cons, List.append_assoc, List.singleton_append,
      List.reverse_reverse] at hcs
    exact hcs.symm

theorem not_mem_of_cutLast? {a b : List Char} (h : cutLast? mark cs = some (a, b)) : mark ∉ b := by
  unfold cutLast? at h
  split at h
  · cases h
  · cases h
    intro hmem
    simpa using List.mem_takeWhile_imp (List.mem_reverse.mp hmem)

/-! ## Pieces between blanks -/

theorem pieces_of_nil (h : cs.dropWhile isBlank = []) : pieces cs = [] := by
  rw [pieces]
  split
  · rfl
  · rename_i h'
    rw [h] at h'
    cases h'

@[simp] theorem pieces_nil : pieces [] = [] := pieces_of_nil rfl

theorem pieces_of_cons {c : Char} {rest : List Char} (h : cs.dropWhile isBlank = c :: rest) :
    pieces cs =
      (c :: rest.takeWhile (!isBlank ·)) :: pieces (rest.dropWhile (!isBlank ·)) := by
  rw [pieces]
  split
  · rename_i h'
    rw [h] at h'
    cases h'
  · rename_i h'
    rw [h] at h'
    cases h'
    rfl

theorem pieces_eq_nil_iff : pieces cs = [] ↔ ∀ c ∈ cs, isBlank c = true := by
  rw [← List.dropWhile_eq_nil_iff]
  constructor
  · intro h
    cases hcs : cs.dropWhile isBlank with
    | nil => rfl
    | cons c rest =>
      rw [pieces_of_cons hcs] at h
      cases h
  · exact pieces_of_nil

theorem stop_at_blank {tail : List Char} (h : ∀ c ∈ tail.head?, isBlank c = true) :
    tail.takeWhile (!isBlank ·) = [] ∧ tail.dropWhile (!isBlank ·) = tail := by
  cases tail with
  | nil => exact ⟨rfl, rfl⟩
  | cons d tail => simp [h d rfl]

theorem pieces_append_blanks {bs : List Char} (hbs : ∀ c ∈ bs, isBlank c = true) :
    pieces (cs ++ bs) = pieces cs := by
  fun_induction pieces cs with
  | case1 cs h =>
    rw [pieces_eq_nil_iff, List.forall_mem_append]
    exact ⟨List.dropWhile_eq_nil_iff.mp h, hbs⟩
  | case2 cs c rest h ih =>
    have hrest : (cs ++ bs).dropWhile isBlank = c :: (rest ++ bs) := by
      rw [List.dropWhile_append, h]
      rfl
    have hstop := stop_at_blank fun c hc => hbs c (List.mem_of_head? hc)
    have hfirst : (rest ++ bs).takeWhile (!isBlank ·) = rest.takeWhile (!isBlank ·) := by
      rw [List.takeWhile_append, hstop.1, List.append_nil]
      split
      · rename_i hlen
        exact ((List.takeWhile_prefix _).eq_of_length hlen).symm
      · rfl
    rw [pieces_of_cons hrest, hfirst, List.cons.injEq]
    refine ⟨rfl, ?_⟩
    by_cases hend : rest.dropWhile (!isBlank ·) = []
    · rw [List.dropWhile_append, hend, List.isEmpty_nil, if_pos rfl, hstop.2, pieces_nil,
        pieces_eq_nil_iff.mpr hbs]
    · rw [List.dropWhile_append, List.isEmpty_eq_false_iff.mpr hend, if_neg Bool.false_ne_true, ih]

theorem pieces_dropWhile (cs : List Char) : pieces (cs.dropWhile isBlank) = pieces cs := by
  cases h : cs.dropWhile isBlank with
  | nil => rw [pieces_of_nil h, pieces_nil]
  | cons c rest =>
    have hc : (c :: rest).dropWhile isBlank = c :: rest := by
      rw [List.dropWhile_cons, head_dropWhile_isBlank h]
      rfl
    rw [pieces_of_cons h, pieces_of_cons hc]

theorem pieces_blanks_append {bs : List Char} (hbs : ∀ c ∈ bs, isBlank c = true) (cs : List Char) :
    pieces (bs ++ cs) = pieces cs := by
  rw [← pieces_dropWhile, List.dropWhile_append_of_pos hbs, pieces_dropWhile]

theorem trimEnd_append (cs : List Char) :
    ∃ bs, (∀ c ∈ bs, isBlank c = true) ∧ cs = trimEnd cs ++ bs := by
  refine ⟨(cs.reverse.takeWhile isBlank).reverse, ?_, ?_⟩
  · intro c hc
    exact List.mem_takeWhile_imp (List.mem_reverse.mp hc)
  · unfold trimEnd
    rw [← List.reverse_append, List.takeWhile_append_dropWhile, List.reverse_reverse]

theorem pieces_trim (cs : List Char) : pieces (trim cs) = pieces cs := by
  obtain ⟨bs, hbs, hcs⟩ := trimEnd_append (trimStart cs)
  unfold trim
  rw [← pieces_append_blanks hbs, ← hcs]
  exact pieces_dropWhile cs

theorem head_trim (cs : List Char) : ∀ c ∈ (trim cs).head?, isBlank c = false := by
  intro c hc
  obtain ⟨rest, hrest⟩ := List.head?_eq_some_iff.mp hc
  obtain ⟨bs, -, hcs⟩ := trimEnd_append (trimStart cs)
  unfold trim at hrest
  rw [hrest, List.cons_append] at hcs
  exact head_dropWhile_isBlank hcs

theorem getLast_trim (cs : List Char) : ∀ c ∈ (trim cs).getLast?, isBlank c = false := by
  intro c hc
  unfold trim trimEnd at hc
  rw [List.getLast?_reverse] at hc
  have := List.head?_dropWhile_not isBlank (trimStart cs).reverse
  rw [Option.mem_def.mp hc] at this
  simpa using this

theorem pieces_word_append {w tail : List Char} (hne : w ≠ []) (hw : ∀ c ∈ w, isBlank c = false)
    (htail : ∀ c ∈ tail.head?, isBlank c = true) : pieces (w ++ tail) = w :: pieces tail := by
  obtain ⟨c, w, rfl⟩ := List.exists_cons_of_ne_nil hne
  rw [List.forall_mem_cons] at hw
  have hfront : ((c :: w) ++ tail).dropWhile isBlank = c :: (w ++ tail) := by
    rw [List.cons_append, List.dropWhile_cons, hw.1]
    rfl
  have hword : ∀ d ∈ w, (!isBlank d) = true := fun d hd => by rw [hw.2 d hd]; rfl
  have hstop := stop_at_blank htail
  rw [pieces_of_cons hfront, List.takeWhile_append_of_pos hword, List.dropWhile_append_of_pos hword,
    hstop.1, hstop.2, List.append_nil]

theorem of_pieces {p : List Char} {ps : List (List Char)} (h : pieces cs = p :: ps) :
    ∃ bs tail, cs = bs ++ (p ++ tail) ∧ (∀ c ∈ bs, isBlank c = true) ∧
      (∀ c ∈ tail.head?, isBlank c = true) ∧ pieces tail = ps := by
  cases hcs : cs.dropWhile isBlank with
  | nil =>
    rw [pieces_of_nil hcs] at h
    cases h
  | cons c rest =>
    rw [pieces_of_cons hcs] at h
    cases h
    refine ⟨cs.takeWhile isBlank, rest.dropWhile (!isBlank ·), ?_, ?_, ?_, rfl⟩
    · rw [List.cons_append, List.takeWhile_append_dropWhile, ← hcs,
        List.takeWhile_append_dropWhile]
    · exact fun d hd => List.mem_takeWhile_imp hd
    · intro d hd
      have := List.head?_dropWhile_not (!isBlank ·) rest
      rw [Option.mem_def.mp hd] at this
      simpa using this

theorem trim_of_word {bs w es : List Char} (hbs : ∀ c ∈ bs, isBlank c = true) (hne : w ≠ [])
    (hw : ∀ c ∈ w, isBlank c = false) (hes : ∀ c ∈ es, isBlank c = true) :
    trim (bs ++ (w ++ es)) = w := by
  have hstop {w : List Char} (hne : w ≠ []) (hw : ∀ c ∈ w, isBlank c = false) (tail : List Char) :
      (w ++ tail).dropWhile isBlank = w ++ tail := by
    obtain ⟨c, w, rfl⟩ := List.exists_cons_of_ne_nil hne
    rw [List.cons_append, List.dropWhile_cons, hw c List.mem_cons_self]
    rfl
  have hback := hstop (List.reverse_ne_nil_iff.mpr hne) (fun c hc => hw c (List.mem_reverse.mp hc)) []
  rw [List.append_nil] at hback
  unfold trim trimStart trimEnd
  rw [List.dropWhile_append_of_pos hbs, hstop hne hw, List.reverse_append,
    List.dropWhile_append_of_pos (fun c hc => hes c (List.mem_reverse.mp hc)), hback,
    List.reverse_reverse]

theorem trim_of_piece {w : List Char} (h : pieces cs = [w]) : trim cs = w := by
  have hw : w ∈ pieces cs := h ▸ List.mem_cons_self
  obtain ⟨bs, tail, rfl, hbs, -, htail⟩ := of_pieces h
  exact trim_of_word hbs (pieces_ne_nil hw) (pieces_noBlank hw) (pieces_eq_nil_iff.mp htail)

theorem pieces_of_noBlank (h : ∀ c ∈ cs, isBlank c = false) (hne : cs ≠ []) : pieces cs = [cs] := by
  have hword : pieces (cs ++ []) = cs :: pieces [] := pieces_word_append hne h (by simp)
  rwa [List.append_nil, pieces_nil] at hword

end Cadence.Text
