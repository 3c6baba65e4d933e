import Cadence.Proofs.Schedule.Gaps
import Cadence.Proofs.Schedule.TimerStart

/-!
# The blanks of an expression

A keyword is looked up without the blanks around it, and five fields are joined anew. Six and seven
fields are read as they stand, by a reader that knows four blanks only: there the blanks count as
far as they are others.
-/

namespace Cadence

open Schedule

namespace Schedule

variable {cs p : List Char} {ps : List (List Char)}

/-! ## Pieces on one line -/

/-- The text has no other blanks than gaps. -/
def OnlyGaps (cs : List Char) : Prop := ∀ ch ∈ cs, Text.isBlank ch = true → isGap ch = true

theorem of_front_piece (hpieces : Text.pieces cs = p :: ps)
    (hfront : ∀ ch ∈ cs.head?, Text.isBlank ch = false) :
    ∃ tail, cs = p ++ tail ∧ (∀ ch ∈ tail.head?, Text.isBlank ch = true) ∧
      Text.pieces tail = ps := by
  obtain ⟨bs, tail, rfl, hbs, htail, hps⟩ := Text.of_pieces hpieces
  cases bs with
  | nil => exact ⟨tail, rfl, htail, hps⟩
  | cons b bs =>
    have hblank := hbs b List.mem_cons_self
    rw [hfront b rfl] at hblank
    cases hblank

theorem head_skipGaps (hgaps : OnlyGaps cs) :
    ∀ ch ∈ (skipGaps cs).head?, Text.isBlank ch = false := by
  intro ch hch
  obtain ⟨rest, hrest⟩ := List.head?_eq_some_iff.mp hch
  have hnoGap := skipGaps_noHead cs ch rest hrest
  have hmem : ch ∈ cs := (List.dropWhile_sublist _).mem (List.mem_of_head? hch)
  by_contra hblank
  rw [hgaps ch hmem (by simpa using hblank)] at hnoGap
  cases hnoGap

theorem squeeze_of_pieces (hpieces : Text.pieces cs = p :: ps) (hgaps : OnlyGaps cs)
    (hfront : ∀ ch ∈ cs.head?, Text.isBlank ch = false)
    (hback : ∀ ch ∈ cs.getLast?, Text.isBlank ch = false) :
    squeeze cs = Text.joined ' ' p ps := by
  induction ps generalizing cs p with
  | nil =>
    have hp : NoGap p := noGap_of_mem_pieces (hpieces ▸ List.mem_cons_self)
    obtain ⟨tail, rfl, -, hnil⟩ := of_front_piece hpieces hfront
    -- Behind the last piece there could be blanks alone, and the text does not end with one.
    have htail : tail = [] := by
      by_contra hne
      rw [List.getLast?_append_of_ne_nil _ hne] at hback
      have hmem := List.getLast?_eq_some_getLast hne
      have := Text.pieces_eq_nil_iff.mp hnil _ (List.getLast_mem hne)
      rw [hback _ hmem] at this
      cases this
    rw [htail, squeeze_noGap_append hp]
    rfl
  | cons q qs ih =>
    have hp : NoGap p := noGap_of_mem_pieces (hpieces ▸ List.mem_cons_self)
    obtain ⟨tail, rfl, hblank, htail⟩ := of_front_piece hpieces hfront
    cases tail with
    | nil => simp at htail
    | cons d ds =>
      rw [OnlyGaps, List.forall_mem_append] at hgaps
      -- The blank behind the piece begins a run of gaps, and the next piece stands behind the run.
      have hd : isGap d = true := hgaps.2 d List.mem_cons_self (hblank d rfl)
      have hrest : Text.pieces (skipGaps ds) = q :: qs := by
        rw [← skipGaps_of_gap hd, pieces_skipGaps, htail]
      have hds : OnlyGaps ds := fun ch hch => hgaps.2 ch (List.mem_cons_of_mem d hch)
      have hne : skipGaps ds ≠ [] := fun h => by simp [h] at hrest
      have hlast : (p ++ d :: ds).getLast? = (skipGaps ds).getLast? := by
        rw [← gaps_append ds, ← List.cons_append, ← List.append_assoc,
          List.getLast?_append_of_ne_nil _ hne, gaps_append]
      have hline := ih hrest (fun ch hch => hds ch ((List.dropWhile_sublist _).mem hch))
        (head_skipGaps hds) (by rwa [← hlast])
      rw [squeeze_noGap_append hp, squeeze_of_gap hd, hline]
      simp [Text.joined]

/-! ## Expressions -/

theorem pieces_bare (s : String) : Text.pieces (bare s) = Text.pieces s.toList := by
  obtain ⟨bs, es, hs, hbs, hes⟩ := toList_eq_bare s
  rw [hs, Text.pieces_blanks_append hbs, Text.pieces_append_blanks hes]

theorem not_isShorthand_of_pieces {s : String} (hpieces : (Text.pieces s.toList).length ≠ 1) :
    ¬ IsShorthand s := by
  rintro ⟨fields, hfields⟩
  rw [lookup_eq_none_of_pieces (by decide) (by rwa [pieces_bare])] at hfields
  cases hfields

/-- The fields of the text are read as they stand. -/
def IsRaw (cs : List Char) : Prop := (Text.pieces cs).length = 6 ∨ (Text.pieces cs).length = 7

end Schedule

namespace ScheduleKind

variable {cs ds : List Char}

theorem cronOf?_of_raw (hraw : IsRaw cs) : cronOf? cs = ofFields? cs := by
  have hread : read? (String.ofList cs) = ofFields? cs := by
    rw [read?_of_not_shorthand, String.toList_ofList]
    apply not_isShorthand_of_pieces
    rw [String.toList_ofList]
    rcases hraw with h | h <;> omega
  unfold IsRaw at hraw
  unfold cronOf?
  generalize Text.pieces cs = ps at hraw
  rcases hraw with hraw | hraw
  · match ps, hraw with
    | [_, _, _, _, _, _], _ => exact hread
  · match ps, hraw with
    | [_, _, _, _, _, _, _], _ => exact hread

theorem cronOf?_congr (hpieces : Text.pieces cs = Text.pieces ds) (hraw : ¬ IsRaw cs) :
    cronOf? cs = cronOf? ds := by
  unfold IsRaw at hraw
  unfold cronOf?
  rw [← hpieces]
  generalize Text.pieces cs = ps at hraw
  split <;> simp at hraw ⊢

theorem keyword_congr (hpieces : Text.pieces cs = Text.pieces ds) :
    keywords.lookup (String.ofList (Text.trim cs)) =
      keywords.lookup (String.ofList (Text.trim ds)) := by
  by_cases hone : (Text.pieces cs).length = 1
  · obtain ⟨w, hw⟩ := List.length_eq_one_iff.mp hone
    rw [Text.trim_of_piece hw, Text.trim_of_piece (hpieces ▸ hw)]
  · have hnone (es : List Char) (hes : (Text.pieces es).length ≠ 1) :
        keywords.lookup (String.ofList (Text.trim es)) = none :=
      lookup_eq_none_of_pieces (by decide) (by rwa [Text.pieces_trim])
    rw [hnone cs hone, hnone ds (hpieces ▸ hone)]

theorem cronOf?_of_onlyGaps {p : List Char} {ps : List (List Char)} (hraw : IsRaw cs)
    (hpieces : Text.pieces cs = p :: ps) (hgaps : OnlyGaps (Text.trim cs)) :
    cronOf? (Text.trim cs) = ofFields? (Text.joined ' ' p ps) := by
  have htrim : Text.pieces (Text.trim cs) = p :: ps := by rw [Text.pieces_trim, hpieces]
  have hline := squeeze_of_pieces htrim hgaps (Text.head_trim cs) (Text.getLast_trim cs)
  rw [cronOf?_of_raw (by rwa [IsRaw, Text.pieces_trim]), ← ofFields?_squeeze, hline]

end ScheduleKind

/-- Two expressions with the same pieces are of the same kind, and have the same next runs, unless
they have six or seven pieces and one of them has another blank than a space, a tab or an end of a
line between them. Such an expression is left to the fallback. -/
theorem blanks_do_not_count {x y : String}
    (hpieces : Text.pieces x.toList = Text.pieces y.toList) :
    ((IsRaw x.toList → OnlyGaps (Text.trim x.toList) ∧ OnlyGaps (Text.trim y.toList)) →
      ScheduleKind.ofExpression x = ScheduleKind.ofExpression y ∧
        ∀ t, nextExecution x t = nextExecution y t) ∧
    (IsRaw x.toList → ¬ OnlyGaps (Text.trim x.toList) → ScheduleKind.ofExpression x = .fallback) := by
  have hkeyword := ScheduleKind.keyword_congr hpieces
  constructor
  · intro hgaps
    have hcron : ScheduleKind.cronOf? (Text.trim x.toList) =
        ScheduleKind.cronOf? (Text.trim y.toList) := by
      -- Six or seven pieces are read as they stand, all others by their pieces.
      by_cases hraw : IsRaw x.toList
      · obtain ⟨hx, hy⟩ := hgaps hraw
        have hraw' : IsRaw y.toList := by rwa [IsRaw, ← hpieces]
        cases hps : Text.pieces x.toList with
        | nil => simp [IsRaw, hps] at hraw
        | cons p ps =>
          rw [ScheduleKind.cronOf?_of_onlyGaps hraw hps hx,
            ScheduleKind.cronOf?_of_onlyGaps hraw' (hpieces ▸ hps) hy]
      · apply ScheduleKind.cronOf?_congr
        · rw [Text.pieces_trim, Text.pieces_trim, hpieces]
        · rwa [IsRaw, Text.pieces_trim]
    have hkind : ScheduleKind.ofExpression x = ScheduleKind.ofExpression y := by
      unfold ScheduleKind.ofExpression
      simp only [hkeyword, hcron]
    refine ⟨hkind, fun t => ?_⟩
    unfold nextExecution
    rw [hkind]
  · intro hraw hblank
    have htrim : IsRaw (Text.trim x.toList) := by rwa [IsRaw, Text.pieces_trim]
    have hnone : ScheduleKind.keywords.lookup (String.ofList (Text.trim x.toList)) = none :=
      lookup_eq_none_of_pieces (by decide) (by rcases htrim with h | h <;> omega)
    have hcron : ScheduleKind.cronOf? (Text.trim x.toList) = none := by
      rw [ScheduleKind.cronOf?_of_raw htrim]
      cases hfields : ofFields? (Text.trim x.toList) with
      | none => rfl
      | some s => exact absurd (isGap_of_ofFields? hfields) hblank
    unfold ScheduleKind.ofExpression
    simp only [hnone, hcron]

/-- Every hour on the hour, with a tab and an end of a line for two of the spaces and a wide space
behind; and a wide space between fields. -/
theorem blanks_do_not_count_of_tab :
    let x := "0 0 * * * *"
    let y := "0\t0 *\n* * *\u3000"
    let z := "0\u30000 * * * *"
    Text.pieces x.toList = Text.pieces y.toList ∧ (∀ t, nextExecution x t = nextExecution y t) ∧
      ScheduleKind.ofExpression z = .fallback := by
  intro x y z
  have hpieces : Text.pieces x.toList = Text.pieces y.toList := by decide +kernel
  have hx : OnlyGaps (Text.trim x.toList) := Text.forall_mem_of_all (by decide +kernel)
  have hy : OnlyGaps (Text.trim y.toList) := Text.forall_mem_of_all (by decide +kernel)
  have hz : ¬ OnlyGaps (Text.trim z.toList) := by
    intro hgaps
    have := hgaps '\u3000' (by decide +kernel) (by decide)
    cases this
  refine ⟨hpieces, ((blanks_do_not_count hpieces).1 fun _ => ⟨hx, hy⟩).2, ?_⟩
  apply (blanks_do_not_count (x := z) rfl).2 _ hz
  exact .inl (by decide +kernel)

/-- Noon, with a space and with a no-break space behind the seconds. The pieces are the same, and
the second expression is left to the fallback. -/
theorem blanks_count_in_six_fields :
    let x := "0 0 12 * * *"
    let y := "0\u00a00 12 * * *"
    let t : Instant := ⟨20157, 39600, 0, by decide, by decide, by decide, by decide⟩
    Text.pieces x.toList = Text.pieces y.toList ∧
      ScheduleKind.ofExpression x ≠ ScheduleKind.ofExpression y ∧
      nextExecution x t = some ⟨20157, 43200, 0, by decide, by decide, by decide, by decide⟩ ∧
      nextExecution y t = some ⟨20157, 39900, 0, by decide, by decide, by decide, by decide⟩ := by
  intro x y t
  refine ⟨by decide +kernel, by decide +kernel, ?_, ?_⟩
  · decide +kernel
  · decide +kernel

end Cadence
