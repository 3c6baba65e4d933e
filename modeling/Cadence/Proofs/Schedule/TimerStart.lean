import Cadence.Proofs.Schedule.TimerFields
import Cadence.Proofs.Settings.Rules
import Mathlib.Data.List.Zip

/-!
# Starting the timer with a schedule

The settings know a schedule by its own grammar, and the timer reads the same text by another one.
The shorthands are the same. Otherwise the timer wants six or seven pieces, and it starts exactly if
each of them is a field that both grammars have.
-/

namespace Cadence.Schedule

/-- The text without the gaps around it. -/
def bare (s : String) : List Char := (skipGaps (skipGaps s.toList).reverse).reverse

/-- The text is a shorthand, with gaps around it at most. -/
def IsShorthand (s : String) : Prop :=
  ∃ fields, shorthands.lookup (String.ofList (bare s)) = some fields

/-- The pieces of the text are its fields: none begins or ends with a comma, a dash or a slash, and
there are not more fields than pieces. -/
structure Separate (s : String) : Prop where
  stands : ∀ p ∈ Text.pieces s.toList, Stands p
  enough : ∀ comps ∈ [components, components ++ [.year]], ∀ fs, Reads comps s.toList fs →
    comps.length ≤ (Text.pieces s.toList).length

variable {s : String}

/-! ## Shorthands -/

theorem toList_eq_bare (s : String) :
    ∃ bs es, s.toList = bs ++ (bare s ++ es) ∧ (∀ ch ∈ bs, Text.isBlank ch = true) ∧
      ∀ ch ∈ es, Text.isBlank ch = true := by
  have hback : bare s ++ ((skipGaps s.toList).reverse.takeWhile isGap).reverse =
      skipGaps s.toList := by
    unfold bare
    rw [← List.reverse_append, gaps_append, List.reverse_reverse]
  refine ⟨s.toList.takeWhile isGap, ((skipGaps s.toList).reverse.takeWhile isGap).reverse, ?_,
    isBlank_of_gaps _, ?_⟩
  · rw [hback, gaps_append]
  · exact fun ch hch => isBlank_of_gaps _ ch (List.mem_reverse.mp hch)

theorem start_eq_ok_iff {s : String} : Timer.start s = .ok () ↔ Timer.isExpression s = true := by
  unfold Timer.start
  split <;> simp_all

theorem isExpression_congr {s t : String} (h : Text.trim s.toList = Text.trim t.toList) :
    Timer.isExpression s = Timer.isExpression t := by
  unfold Timer.isExpression Timer.fields
  rw [h]

theorem start_of_shorthand (h : IsShorthand s) : Timer.start s = .ok () := by
  have hall : ∀ x ∈ shorthands, Timer.isExpression x.1 = true ∧ x.1.toList ≠ [] ∧
      (x.1.toList.all fun ch => decide (Text.isBlank ch = false)) = true := by decide +kernel
  obtain ⟨fields, hfields⟩ := h
  obtain ⟨hexpression, hne, hblank⟩ := hall _ (Timer.mem_of_lookup hfields)
  rw [String.toList_ofList] at hne hblank
  have hword := Text.forall_mem_of_all hblank
  obtain ⟨bs, es, hs, hbs, hes⟩ := toList_eq_bare s
  have hbare : Text.trim ([] ++ (bare s ++ [])) = bare s :=
    Text.trim_of_word nofun hne hword nofun
  rw [List.nil_append, List.append_nil] at hbare
  rw [start_eq_ok_iff, ← hexpression]
  apply isExpression_congr
  rw [hs, Text.trim_of_word hbs hne hword hes, String.toList_ofList, hbare]

/-! ## Fields -/

theorem read?_of_not_shorthand (hs : ¬ IsShorthand s) : read? s = ofFields? s.toList := by
  have hnone : shorthands.lookup (String.ofList (bare s)) = none := by
    cases hlookup : shorthands.lookup (String.ofList (bare s)) with
    | none => rfl
    | some fields => exact absurd ⟨fields, hlookup⟩ hs
  unfold bare at hnone
  unfold read?
  simp only [hnone]

theorem reads_of_read? {schedule : Schedule} (hs : ¬ IsShorthand s) (h : read? s = some schedule) :
    ∃ comps ∈ [components, components ++ [.year]], ∃ fs, Reads comps s.toList fs := by
  rw [read?_of_not_shorthand hs] at h
  rcases reads_of_ofFields? h with hreads | hreads
  · exact ⟨_, by simp, _, hreads⟩
  · exact ⟨_, by simp, _, hreads⟩

theorem nickname_of_readField {c : Component} {f : Field} {rest : List Char}
    (h : readField c s.toList = some (f, rest)) :
    Timer.nicknames.lookup (String.ofList ((Text.trim s.toList).map Text.upperChar)) = none := by
  have hall : ∀ x ∈ Timer.nicknames, x.1.toList.head? = some '@' ∧
      (x.1.toList.all fun ch => decide (Text.isBlank ch = false)) = true := by decide +kernel
  cases hlookup : Timer.nicknames.lookup
      (String.ofList ((Text.trim s.toList).map Text.upperChar)) with
  | none => rfl
  | some n =>
    obtain ⟨hat, hblank⟩ := hall _ (Timer.mem_of_lookup hlookup)
    rw [String.toList_ofList] at hat hblank
    have hpieces := Text.pieces_of_noBlank (Text.forall_mem_of_all hblank)
      (by rintro heq; simp [heq] at hat)
    rw [Timer.pieces_upper, Text.pieces_trim, List.map_eq_singleton_iff] at hpieces
    obtain ⟨p, hp, hupper⟩ := hpieces
    obtain ⟨tail, hfront, -⟩ := front_of_readField hp h
    rw [← hupper] at hat
    cases p with
    | nil => cases hat
    | cons ch p =>
      have hch : Text.upperChar ch = '@' := Option.some.inj hat
      have hmark : (Text.upperChar ch).isAlphanum = false := by rw [hch]; rfl
      have hsame := Timer.eq_of_upperChar hmark
      obtain rfl : ch = '@' := hsame.symm.trans hch
      -- No field begins with the sign of the nicknames.
      rw [readField_of_strange hfront rfl (by decide)] at h
      cases h

theorem timerFields_of_readField {c : Component} {f : Field} {rest : List Char}
    (h : readField c s.toList = some (f, rest)) :
    Timer.fields s = (Text.pieces s.toList).map Timer.inNumbers := by
  unfold Timer.fields
  simp only [nickname_of_readField h]
  rw [← Text.pieces_trim s.toList, ← Timer.pieces_inNumbers]
  rfl

theorem onLine_of_stands {cs p : List Char} (hp : p ∈ Text.pieces cs) (h : Stands p) : OnLine p :=
  ⟨⟨Text.pieces_ne_nil hp, noGap_of_mem_pieces hp, h.noLast⟩, h.noHead⟩

theorem Separate.fields {comps : List Component} {fs : List Field} (h : Separate s)
    (hcomps : comps ∈ [components, components ++ [.year]]) (hreads : Reads comps s.toList fs) :
    comps.length = (Text.pieces s.toList).length ∧
      List.Forall₂ (fun x f => fieldOf? x.1 x.2 = some f) (comps.zip (Text.pieces s.toList)) fs := by
  have henough := h.enough comps hcomps fs hreads
  have honLine : ∀ p ∈ Text.pieces s.toList, OnLine p := fun p hp =>
    onLine_of_stands hp (h.stands p hp)
  cases hpieces : Text.pieces s.toList with
  | nil =>
    rw [hpieces] at henough
    simp only [List.mem_cons, List.not_mem_nil, or_false] at hcomps
    rcases hcomps with rfl | rfl <;> simp [components] at henough
  | cons p ps =>
    rw [hpieces] at henough honLine
    rw [List.forall_mem_cons] at honLine
    exact hreads.pieces hpieces honLine.1.toPart honLine.2 henough

theorem NoHead.of_head? {p : Char → Bool} {cs : List Char} (h : cs.head?.all (!p ·) = true) :
    NoHead p cs := by
  rintro ch rest rfl
  simpa using h

theorem stands_of_all {ps : List (List Char)}
    (h : (ps.all fun p => p.head?.all (!continues ·) && p.reverse.head?.all (!continues ·)) = true) :
    ∀ p ∈ ps, Stands p := by
  intro p hp
  have hends := List.all_eq_true.mp h p hp
  rw [Bool.and_eq_true] at hends
  exact ⟨.of_head? hends.1, .of_head? hends.2⟩

theorem separate_of_six (hstands : ∀ p ∈ Text.pieces s.toList, Stands p)
    (hlength : (Text.pieces s.toList).length = 6) {fs : List Field}
    (hreads : Reads components s.toList fs) : Separate s := by
  refine ⟨hstands, ?_⟩
  intro comps hcomps fs' hreads'
  rw [hlength]
  simp only [List.mem_cons, List.not_mem_nil, or_false] at hcomps
  rcases hcomps with rfl | rfl
  · exact Nat.le_refl 6
  · have heq := hreads.eq_of_prefix hreads' (List.prefix_append _ _)
    cases heq

theorem isExpression_iff {comps : List Component} {fs : List Field} {ps : List (List Char)}
    (hfields : Timer.fields s = ps.map Timer.inNumbers) (hgaps : ∀ p ∈ ps, NoGap p)
    (hcomps : comps ∈ [components, components ++ [.year]]) (hlength : comps.length = ps.length)
    (h : List.Forall₂ (fun x f => fieldOf? x.1 x.2 = some f) (comps.zip ps) fs) :
    Timer.isExpression s = true ↔ ∀ x ∈ ps.zip (components ++ [.year]), CommonField x.2 x.1 := by
  simp only [List.mem_cons, List.not_mem_nil, or_false] at hcomps
  have hcount : (decide (ps.length = 6) || decide (ps.length = 7)) = true := by
    rw [← hlength]
    rcases hcomps with rfl | rfl <;> rfl
  have hzip : ps.zip (components ++ [.year]) = ps.zip comps := by
    rcases hcomps with rfl | rfl
    · have hrow : (ps ++ []).zip (components ++ [Component.year]) =
          ps.zip components ++ [].zip [Component.year] := List.zip_append hlength.symm
      simpa using hrow
    · rfl
  unfold Timer.isExpression
  simp only [hfields, List.length_map, hcount, Bool.true_and, Timer.rules_eq]
  rw [List.zip_map, List.all_map, hzip, List.all_eq_true]
  refine forall₂_congr fun x hx => ?_
  have hswap : x.swap ∈ comps.zip ps := by
    rw [← List.zip_swap]
    exact List.mem_map_of_mem hx
  obtain ⟨f, -, hf⟩ := exists_of_mem_of_forall₂ h hswap
  exact Timer.isField_iff (hgaps _ (List.of_mem_zip hx).1) hf

/-- The schedule of settings in order that is a shorthand starts the timer. Any other one that
starts it has six or seven pieces; and if its pieces are its fields, it starts the timer exactly if
each is a field that both grammars have. -/
theorem start_of_valid_schedule {config : CronSettings} (henabled : config.trigger.enabled = true)
    (hvalid : config.validate = .ok ()) :
    let s := config.trigger.schedule
    let pieces := Text.pieces s.toList
    (IsShorthand s → Timer.start s = .ok ()) ∧
      (¬ IsShorthand s → Timer.start s = .ok () → pieces.length = 6 ∨ pieces.length = 7) ∧
      (¬ IsShorthand s → Separate s →
        (Timer.start s = .ok () ↔
          ∀ x ∈ pieces.zip (components ++ [.year]), CommonField x.2 x.1)) := by
  intro s pieces
  obtain ⟨schedule, hread⟩ :=
    Option.isSome_iff_exists.mp ((CronSettings.validate_eq_ok_iff.mp hvalid).2 henabled)
  have hfields (hs : ¬ IsShorthand s) : ∃ comps ∈ [components, components ++ [.year]],
      ∃ fs, Reads comps s.toList fs ∧ Timer.fields s = pieces.map Timer.inNumbers := by
    obtain ⟨comps, hcomps, fs, hreads⟩ := reads_of_read? hs hread
    have hne : comps ≠ [] := by
      rintro rfl
      simp [components] at hcomps
    obtain ⟨c, f, rest, hfield⟩ := hreads.front hne
    exact ⟨comps, hcomps, fs, hreads, timerFields_of_readField hfield⟩
  refine ⟨start_of_shorthand, fun hs hstart => ?_, fun hs hseparate => ?_⟩
  · obtain ⟨_, -, _, -, htimer⟩ := hfields hs
    rw [start_eq_ok_iff] at hstart
    unfold Timer.isExpression at hstart
    simp only [htimer, List.length_map, Bool.and_eq_true, Bool.or_eq_true, decide_eq_true_eq]
      at hstart
    exact hstart.1
  · obtain ⟨comps, hcomps, fs, hreads, htimer⟩ := hfields hs
    obtain ⟨hlength, heach⟩ := hseparate.fields hcomps hreads
    rw [start_eq_ok_iff]
    exact isExpression_iff htimer (fun p => noGap_of_mem_pieces) hcomps hlength heach

theorem start_of_office_hours :
    let s := "0 */5 9-17 1,15 Jan-Jun mon-fri"
    let config : CronSettings := { trigger := { enabled := true, schedule := s } }
    config.trigger.enabled = true ∧ config.validate = .ok () ∧ ¬ IsShorthand s ∧ Separate s ∧
      Timer.start s = .ok () := by
  intro s config
  have hvalid : config.validate = .ok () :=
    CronSettings.validate_eq_ok_iff.mpr ⟨by decide, fun _ => by decide +kernel⟩
  have hshorthand : ¬ IsShorthand s := by
    rintro ⟨fields, hfields⟩
    have hnone : shorthands.lookup (String.ofList (bare s)) = none := by decide +kernel
    rw [hnone] at hfields
    cases hfields
  have hpieces : Text.pieces s.toList = ["0".toList, "*/5".toList, "9-17".toList, "1,15".toList,
      "Jan-Jun".toList, "mon-fri".toList] := by decide +kernel
  have hsix : ∃ fs, Reads components "0 */5 9-17 1,15 Jan-Jun mon-fri".toList fs := by
    apply Exists.intro
    unfold components
    exact .cons rfl (.cons rfl (.cons rfl (.cons rfl (.cons rfl (.cons rfl .nil)))))
  obtain ⟨fs, hreads⟩ := hsix
  have hseparate : Separate s := by
    apply separate_of_six _ _ hreads
    · rw [hpieces]
      exact stands_of_all (by decide)
    · rw [hpieces]
      rfl
  obtain ⟨-, -, hstart⟩ := start_of_valid_schedule rfl hvalid
  refine ⟨rfl, hvalid, hshorthand, hseparate, (hstart hshorthand hseparate).mpr ?_⟩
  have hcommon : ∀ x ∈ [("0".toList, Component.second), ("*/5".toList, .minute),
      ("9-17".toList, .hour), ("1,15".toList, .dayOfMonth), ("Jan-Jun".toList, .month),
      ("mon-fri".toList, .weekday)], CommonField x.2 x.1 := by
    simp only [List.forall_mem_cons, List.not_mem_nil, false_implies, implies_true, and_true]
    refine ⟨⟨[.plain (.point 0)], rfl, .inr ?_⟩, ⟨[.stepped .all 5], rfl, .inr ?_⟩,
      ⟨[.plain (.range 9 17)], rfl, .inr ?_⟩, ⟨[.plain (.point 1), .plain (.point 15)], rfl, .inr ?_⟩,
      ⟨[.plain (.namedRange "Jan".toList "Jun".toList)], rfl, .inr ?_⟩,
      [.plain (.namedRange "mon".toList "fri".toList)], rfl, .inr ?_⟩ <;>
    simp [Item.IsCommon, Specifier.IsCommon]
  change ∀ x ∈ (Text.pieces s.toList).zip _, _
  rw [hpieces]
  exact hcommon

/-- A weekday by its whole name, and six stars run together, are schedules in order. The timer takes
neither. -/
theorem valid_schedules_not_started :
    let config (s : String) : CronSettings := { trigger := { enabled := true, schedule := s } }
    (config "0 0 0 * * monday").validate = .ok () ∧
      Timer.start "0 0 0 * * monday" = .error (.invalidSchedule "0 0 0 * * monday") ∧
      (config "******").validate = .ok () ∧
      Timer.start "******" = .error (.invalidSchedule "******") := by
  intro config
  have hvalid {s : String} (hs : (read? s).isSome = true) : (config s).validate = .ok () :=
    CronSettings.validate_eq_ok_iff.mpr ⟨by simp [config]; decide, fun _ => hs⟩
  have hrefused {s : String} (hs : Timer.isExpression s = false) :
      Timer.start s = .error (.invalidSchedule s) := by
    unfold Timer.start
    rw [hs]
    rfl
  exact ⟨hvalid (by decide +kernel), hrefused (by decide +kernel), hvalid (by decide +kernel),
    hrefused (by decide +kernel)⟩

end Cadence.Schedule
