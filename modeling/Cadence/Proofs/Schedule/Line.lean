import Cadence.Proofs.Schedule.FiveFields

/-!
# Five fields on one line

The fields are joined to one line, and the reader of the line looks for their ends by itself. It
finds them where they were joined, as long as no field begins or ends with a comma, a dash or a
slash; such a mark may draw the next field in.
-/

namespace Cadence.Schedule

/-! ## Lines -/

/-- The text neither begins nor ends with a mark that continues a field. -/
structure Stands (cs : List Char) : Prop where
  noHead : NoHead continues cs
  noLast : NoHead continues cs.reverse

/-- A text or the rest of one: it asks for nothing after it. -/
structure Part (cs : List Char) : Prop where
  ne_nil : cs ≠ []
  noGap : NoGap cs
  noLast : NoHead continues cs.reverse

/-- A text of a line. -/
structure OnLine (cs : List Char) : Prop extends Part cs where
  noHead : NoHead continues cs

/-- The fields of components are read one after the other, and nothing is left. -/
inductive Reads : List Component → List Char → List Field → Prop
  | nil : Reads [] [] []
  | cons {c : Component} {comps : List Component} {cs rest : List Char} {f : Field}
      {fs : List Field} (h : readField c cs = some (f, rest)) (hrest : Reads comps rest fs) :
      Reads (c :: comps) cs (f :: fs)

variable {c : Component} {comps : List Component} {f : Field} {fs : List Field}
  {p cs rest : List Char} {ps : List (List Char)}

theorem ends_of_onLine (hps : ∀ q ∈ ps, OnLine q) : Ends (ps.flatMap (' ' :: ·)) := by
  cases ps with
  | nil => exact Ends.nil
  | cons q qs =>
    have hq := hps q List.mem_cons_self
    exact (Ends.of_noHead hq.ne_nil hq.noGap hq.noHead _).1

theorem readField_row (hp : Part p) (hps : ∀ q ∈ ps, OnLine q)
    (h : readField c (Text.joined ' ' p ps) = some (f, rest)) :
    (fieldOf? c p = some f ∧ (ps = [] ∧ rest = [] ∨
        ∃ q qs, ps = q :: qs ∧ rest = Text.joined ' ' q qs)) ∨
      ∃ left, Part left ∧ rest = Text.joined ' ' left ps := by
  obtain ⟨hne, hgap, hlast⟩ := hp
  rcases of_readField ⟨hgap, ends_of_onLine hps, .inr hlast⟩ (.inl hne) h with
    ⟨hfield, rfl⟩ | ⟨front, left, rfl, hleft, rfl⟩
  · refine .inl ⟨hfield, ?_⟩
    cases ps with
    | nil => exact .inl ⟨rfl, rfl⟩
    | cons q qs =>
      have hq := hps q List.mem_cons_self
      exact .inr ⟨q, qs, rfl, (Ends.of_noHead hq.ne_nil hq.noGap hq.noHead _).2⟩
  · rw [List.reverse_append] at hlast
    exact .inr ⟨left, ⟨hleft, hgap.right, hlast.of_append⟩, rfl⟩

/-- No more components than texts: each text is a field, and there is one for each of them. -/
theorem Reads.fields (h : Reads comps cs fs) (hcs : cs = Text.joined ' ' p ps)
    (hp : Part p) (hps : ∀ q ∈ ps, OnLine q) (hlength : comps.length ≤ ps.length + 1) :
    comps.length = ps.length + 1 ∧
      List.Forall₂ (fun x f => fieldOf? x.1 x.2 = some f) (comps.zip (p :: ps)) fs := by
  induction h generalizing p ps with
  | nil => exact absurd (List.append_eq_nil_iff.mp hcs.symm).1 hp.ne_nil
  | @cons c comps cs rest f fs hread hreads ih =>
    rw [List.length_cons, Nat.add_le_add_iff_right] at hlength
    rcases readField_row hp hps (hcs ▸ hread) with
      ⟨hfield, ⟨rfl, rfl⟩ | ⟨q, qs, rfl, rfl⟩⟩ | ⟨left, hleft, rfl⟩
    · obtain rfl : comps = [] := List.eq_nil_of_length_eq_zero (Nat.le_zero.mp hlength)
      cases hreads
      exact ⟨rfl, .cons hfield .nil⟩
    · rw [List.forall_mem_cons] at hps
      obtain ⟨hcount, hfields⟩ := ih rfl hps.1.toPart hps.2 hlength
      exact ⟨congrArg (· + 1) hcount, .cons hfield hfields⟩
    · -- A part of the text is left, and now there are fewer components than texts.
      obtain ⟨hcount, -⟩ := ih rfl hleft hps (Nat.le_succ_of_le hlength)
      omega

/-- The components of a schedule in the order of their fields. -/
def components : List Component := [.second, .minute, .hour, .dayOfMonth, .month, .weekday]

/-- The fields of a schedule without those for the years. -/
def fields (s : Schedule) : List Field :=
  [s.seconds, s.minutes, s.hours, s.daysOfMonth, s.months, s.weekdays]

theorem reads_of_ofFields? {s : Schedule} (h : ofFields? cs = some s) :
    Reads components cs s.fields ∨ Reads (components ++ [.year]) cs (s.fields ++ [s.years]) := by
  unfold ofFields? at h
  simp only [Option.bind_eq_bind, Option.bind_eq_some_iff, Option.pure_def] at h
  obtain ⟨⟨seconds, cs₁⟩, h₁, ⟨minutes, cs₂⟩, h₂, ⟨hours, cs₃⟩, h₃, ⟨days, cs₄⟩, h₄, ⟨months, cs₅⟩, h₅,
    ⟨weekdays, cs₆⟩, h₆, h⟩ := h
  cases cs₆ with
  | nil =>
    cases h
    exact .inl (.cons h₁ (.cons h₂ (.cons h₃ (.cons h₄ (.cons h₅ (.cons h₆ .nil))))))
  | cons ch rest =>
    simp only [List.isEmpty_cons, Bool.false_eq_true, if_false, Option.bind_eq_some_iff] at h
    obtain ⟨years, hyears, h⟩ := h
    cases h
    have hyear : readField .year (ch :: rest) = some (years, []) := by
      unfold fieldOf? at hyears
      split at hyears
      · rename_i hread
        cases hyears
        exact hread
      · cases hyears
    exact .inr (.cons h₁ (.cons h₂ (.cons h₃ (.cons h₄ (.cons h₅ (.cons h₆ (.cons hyear .nil)))))))

namespace Crontab

/-! ## Five fields -/

variable {minute hour day month weekday wd : List Char} {s : Schedule}

/-- The schedule has the fields of five texts, and it fires at second 0, in every year. -/
structure HasFields (s : Schedule) (minute hour day month weekday : List Char) : Prop where
  seconds : s.seconds = [⟨0, 0, 1⟩]
  minutes : fieldOf? .minute minute = some s.minutes
  hours : fieldOf? .hour hour = some s.hours
  daysOfMonth : fieldOf? .dayOfMonth day = some s.daysOfMonth
  months : fieldOf? .month month = some s.months
  weekdays : (weekdays? weekday).bind (fieldOf? .weekday) = some s.weekdays
  years : s.years = [.all .year]

/-- No field begins or ends with a mark, and neither does the field of weekdays in names. -/
def Apart (minute hour day month weekday : List Char) : Prop :=
  ∀ wd, weekdays? weekday = some wd → ∀ field ∈ [minute, hour, day, month, wd], Stands field

theorem HasFields.wellFormed (h : HasFields s minute hour day month weekday) :
    WellFormed minute hour day month weekday where
  minute := Option.isSome_of_eq_some h.minutes
  hour := Option.isSome_of_eq_some h.hours
  day := Option.isSome_of_eq_some h.daysOfMonth
  month := Option.isSome_of_eq_some h.months
  weekday := Option.isSome_of_eq_some h.weekdays

theorem ofFields?_eq_line (hwd : weekdays? weekday = some wd) :
    ofFields? minute hour day month weekday =
      Schedule.ofFields? (Text.joined ' ' ['0'] [minute, hour, day, month, wd, ['*']]) := by
  have hline : '0' :: [' '] ++ minute ++ [' '] ++ hour ++ [' '] ++ day ++ [' '] ++ month ++ [' '] ++
      wd ++ [' '] ++ ['*'] = Text.joined ' ' ['0'] [minute, hour, day, month, wd, ['*']] := by
    simp [Text.joined]
  unfold ofFields?
  rw [hwd, Option.bind_eq_bind, Option.bind_some]
  simp only [hline]

section Texts

variable (htexts : ∀ field ∈ [minute, hour, day, month, weekday], field ≠ [] ∧ NoGap field)
include htexts

theorem onLine_of_apart (hapart : Apart minute hour day month weekday)
    (hwd : weekdays? weekday = some wd) :
    ∀ p ∈ [minute, hour, day, month, wd, ['*']], OnLine p := by
  have hstands := hapart wd hwd
  simp only [List.forall_mem_cons, List.not_mem_nil, false_implies, implies_true, and_true]
    at htexts hstands ⊢
  obtain ⟨hminute, hhour, hday, hmonth, hweekday⟩ := htexts
  obtain ⟨hminute', hhour', hday', hmonth', hwd'⟩ := hstands
  exact ⟨⟨⟨hminute.1, hminute.2, hminute'.noLast⟩, hminute'.noHead⟩,
    ⟨⟨hhour.1, hhour.2, hhour'.noLast⟩, hhour'.noHead⟩,
    ⟨⟨hday.1, hday.2, hday'.noLast⟩, hday'.noHead⟩,
    ⟨⟨hmonth.1, hmonth.2, hmonth'.noLast⟩, hmonth'.noHead⟩,
    ⟨⟨weekdays?_ne_nil hweekday.1 hwd, noGap_of_weekdays? hweekday.2 hwd, hwd'.noLast⟩,
      hwd'.noHead⟩,
    ⟨⟨List.cons_ne_nil _ _, by simp [NoGap, isGap], .cons rfl⟩, .cons rfl⟩⟩

theorem hasFields_of_apart (hapart : Apart minute hour day month weekday)
    (h : ofFields? minute hour day month weekday = some s) :
    HasFields s minute hour day month weekday := by
  cases hwd : weekdays? weekday with
  | none =>
    unfold ofFields? at h
    rw [hwd] at h
    cases h
  | some wd =>
    rw [ofFields?_eq_line hwd] at h
    have hps := onLine_of_apart htexts hapart hwd
    have hzero : Part ['0'] := ⟨List.cons_ne_nil _ _, by simp [NoGap, isGap], .cons rfl⟩
    rcases reads_of_ofFields? h with hreads | hreads
    · obtain ⟨hcount, -⟩ := hreads.fields rfl hzero hps (by simp [components])
      cases hcount
    · obtain ⟨-, hfields⟩ := hreads.fields rfl hzero hps (by simp [components])
      simp only [components, fields, List.cons_append, List.nil_append, List.zip_cons_cons,
        List.zip_nil_right, List.forall₂_cons, List.forall₂_nil_left_iff, and_true] at hfields
      obtain ⟨hsecond, hminute, hhour, hday, hmonth, hweekday, hyear⟩ := hfields
      have hseconds : fieldOf? .second ['0'] = some [⟨0, 0, 1⟩] := by decide
      have hyears : fieldOf? .year ['*'] = some [.all .year] := by decide
      refine ⟨?_, hminute, hhour, hday, hmonth, ?_, ?_⟩
      · exact Option.some.inj (hsecond.symm.trans hseconds)
      · rw [hwd, Option.bind_some]
        exact hweekday
      · exact Option.some.inj (hyear.symm.trans hyears)

theorem WellFormed.apart (h : WellFormed minute hour day month weekday) :
    Apart minute hour day month weekday := by
  simp only [List.forall_mem_cons, List.not_mem_nil, false_implies, implies_true, and_true]
    at htexts
  obtain ⟨hminute, hhour, hday, hmonth, hweekday⟩ := htexts
  have hstands {c : Component} {cs : List Char} (hcs : NoGap cs) (h : (fieldOf? c cs).isSome) :
      Stands cs := by
    obtain ⟨f, hf⟩ := Option.isSome_iff_exists.mp h
    exact ⟨(noHead_of_fieldOf? hcs hf).2, noLast_of_fieldOf? hcs hf⟩
  intro wd hwd
  have hfield := h.weekday
  rw [hwd, Option.bind_some] at hfield
  simp only [List.forall_mem_cons, List.not_mem_nil, false_implies, implies_true, and_true]
  exact ⟨hstands hminute.2 h.minute, hstands hhour.2 h.hour, hstands hday.2 h.day,
    hstands hmonth.2 h.month, hstands (noGap_of_weekdays? hweekday.2 hwd) hfield⟩

theorem WellFormed.hasFields (h : WellFormed minute hour day month weekday) :
    ∃ s, ofFields? minute hour day month weekday = some s ∧
      HasFields s minute hour day month weekday := by
  obtain ⟨s, hs, -⟩ := h.reads fun field hfield => (htexts field hfield).2
  exact ⟨s, hs, hasFields_of_apart htexts (h.apart htexts) hs⟩

end Texts

end Crontab

end Schedule

open Schedule Schedule.Crontab

/-- Five fields are a schedule or a fallback. They are well-formed if and only if they are a
schedule and none of them begins or ends with a comma, a dash or a slash, the weekdays after their
rewriting. The schedule of fields that do not so begin or end has the fields as they are, each on
its own. -/
theorem ofExpression_of_five_fields {expression : String}
    {minute hour day month weekday : List Char}
    (hpieces : Text.pieces expression.toList = [minute, hour, day, month, weekday]) :
    let kind := ScheduleKind.ofExpression expression
    (kind = .fallback ∨ ∃ s, kind = .cron s) ∧
      (WellFormed minute hour day month weekday ↔
        (∃ s, kind = .cron s) ∧ Apart minute hour day month weekday) ∧
      ∀ s, kind = .cron s → Apart minute hour day month weekday →
        HasFields s minute hour day month weekday := by
  intro kind
  have htexts : ∀ field ∈ [minute, hour, day, month, weekday], field ≠ [] ∧ NoGap field := by
    intro field hfield
    rw [← hpieces] at hfield
    exact ⟨Text.pieces_ne_nil hfield, noGap_of_mem_pieces hfield⟩
  have hkind : kind = (ofFields? minute hour day month weekday).elim .fallback .cron :=
    ScheduleKind.ofExpression_eq_of_five hpieces
  have hcron (s : Schedule) :
      kind = .cron s ↔ ofFields? minute hour day month weekday = some s := by
    rw [hkind]
    cases ofFields? minute hour day month weekday <;> simp
  have hfields (s : Schedule) (hs : kind = .cron s) (hapart : Apart minute hour day month weekday) :
      HasFields s minute hour day month weekday :=
    hasFields_of_apart htexts hapart ((hcron s).mp hs)
  refine ⟨?_, ⟨?_, ?_⟩, hfields⟩
  · rw [hkind]
    cases ofFields? minute hour day month weekday <;> simp
  · intro hwell
    obtain ⟨s, hs, -⟩ := hwell.hasFields htexts
    exact ⟨⟨s, (hcron s).mpr hs⟩, hwell.apart htexts⟩
  · rintro ⟨⟨s, hs⟩, hapart⟩
    exact (hfields s hs hapart).wellFormed

theorem ofExpression_of_office_hours :
    let expression := "*/15 9-17 1,15 Apr-May 1-5"
    let minute := "*/15".toList
    let hour := "9-17".toList
    let day := "1,15".toList
    let month := "Apr-May".toList
    let weekday := "1-5".toList
    Text.pieces expression.toList = [minute, hour, day, month, weekday] ∧
      ∃ s, ScheduleKind.ofExpression expression = .cron s ∧
        HasFields s minute hour day month weekday := by
  intro expression minute hour day month weekday
  have hpieces : Text.pieces expression.toList = [minute, hour, day, month, weekday] := by
    decide +kernel
  have hfields : WellFormed minute hour day month weekday :=
    ⟨by decide +kernel, by decide +kernel, by decide +kernel, by decide +kernel, by decide +kernel⟩
  obtain ⟨-, hwell, hread⟩ := ofExpression_of_five_fields hpieces
  obtain ⟨⟨s, hs⟩, hapart⟩ := hwell.mp hfields
  exact ⟨hpieces, s, hs, hread s hs hapart⟩

/-- A minute field that ends with a slash takes the hour for its step, and each field after it is
read as the one before it. A list of minutes that ends with a comma does the same. Neither of the
two is well-formed. -/
theorem ofExpression_of_dangling_marks :
    let hours : Field := [⟨1, 1, 1⟩]
    let days : Field := [⟨2, 2, 1⟩]
    let shifted (minutes : Field) : Schedule := ⟨[⟨0, 0, 1⟩], minutes, hours, days, [.all .month],
      [.all .weekday], [.all .year]⟩
    Text.pieces "*/ 5 1 2 *".toList = [['*', '/'], ['5'], ['1'], ['2'], ['*']] ∧
      ¬ WellFormed ['*', '/'] ['5'] ['1'] ['2'] ['*'] ∧
      ScheduleKind.ofExpression "*/ 5 1 2 *" = .cron (shifted [⟨0, 59, 5⟩]) ∧
      Text.pieces "0, 5 1 2 *".toList = [['0', ','], ['5'], ['1'], ['2'], ['*']] ∧
      ¬ WellFormed ['0', ','] ['5'] ['1'] ['2'] ['*'] ∧
      ScheduleKind.ofExpression "0, 5 1 2 *" = .cron (shifted [⟨0, 0, 1⟩, ⟨5, 5, 1⟩]) := by
  refine ⟨by decide +kernel, ?_, by decide +kernel, by decide +kernel, ?_, by decide +kernel⟩
  · exact fun h => absurd h.minute (by decide)
  · exact fun h => absurd h.minute (by decide)

end Cadence
