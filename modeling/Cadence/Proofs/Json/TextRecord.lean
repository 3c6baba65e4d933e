import Cadence.Proofs.Json.Skip
import Mathlib.Data.List.DropRight

/-!
# Records of texts

A record whose fields are all texts is read from any text of JSON, however it is laid out and
whatever else it tells.
-/

namespace Cadence.Json

variable {cs rest : List Char} {v : Json} {fuel : Nat}

/-! ## A text -/

theorem numeric_of_readNumber (h : readNumber cs = some (v, rest)) :
    (∃ n, v = .int n) ∨ ∃ x, v = .float x := by
  rw [readNumber_eq] at h
  simp only [Option.bind_eq_bind, Option.bind_eq_some_iff] at h
  obtain ⟨_, -, _, -, _, -, n, hnumber, h⟩ := h
  cases h
  unfold numberOf? at hnumber
  grind

theorem isScalar_of_readScalar (h : readScalar cs = some (v, rest)) : v.isScalar = true := by
  revert h
  fun_cases readScalar cs with
  | case1 | case2 | case3 =>
    rintro ⟨⟩
    rfl
  | case4 =>
    intro h
    obtain ⟨_, _, h⟩ := Option.map_eq_some_iff.mp h
    cases h
    rfl
  | case5 =>
    intro h
    obtain ⟨_, rfl⟩ | ⟨_, rfl⟩ := numeric_of_readNumber h <;> rfl

theorem asStr?_of_readScalar (h : readScalar cs = some (v, rest))
    (hquote : ∀ tail, cs ≠ '"' :: tail) : asStr? v = none := by
  revert h hquote
  fun_cases readScalar cs with
  | case1 | case2 | case3 =>
    rintro ⟨⟩ -
    rfl
  | case4 tail => exact fun _ hquote => absurd rfl (hquote tail)
  | case5 =>
    intro h _
    obtain ⟨_, rfl⟩ | ⟨_, rfl⟩ := numeric_of_readNumber h <;> rfl

theorem readText_of_readValue {depth : Nat} (h : readValue depth cs = some (v, rest)) :
    (readText cs).toOption = (asStr? v).map fun s => (.str s, rest) := by
  cases valueAt_of_readValue h with
  | scalar hscalar =>
    unfold readText
    split
    · rename_i tail hquote
      rw [hquote, readScalar] at hscalar
      obtain ⟨⟨s, rest'⟩, hread, h⟩ := Option.map_eq_some_iff.mp hscalar
      cases h
      rw [hread]
      rfl
    · rename_i hquote
      rw [asStr?_of_readScalar hscalar hquote]
      rfl
  | noItems hopen => unfold readText; simp only [hopen]; rfl
  | items hopen => unfold readText; simp only [hopen]; rfl
  | noMembers hopen => unfold readText; simp only [hopen]; rfl
  | members hopen => unfold readText; simp only [hopen]; rfl

/-! ## The members of an object -/

variable {fields : List FieldReader} {texts : List (String × String)}
  {found ms : List (String × Json)} {name : String}

/-- The members that a record of texts keeps of those of an object, besides the ones found so far.
-/
def keepTexts (fields : List FieldReader) (found : List (String × Json)) :
    List (String × Json) → Option (List (String × Json))
  | [] => (complete fields found).toOption
  | (name, v) :: rest =>
    if isField fields name then
      if (found.lookup name).isSome then none
      else (asStr? v).bind fun s => keepTexts fields ((name, .str s) :: found) rest
    else keepTexts fields found rest

theorem toOption_complete (fields : List FieldReader) (found : List (String × Json))
    (rest : List Char) :
    ((complete fields found).map (·, rest)).toOption =
      (complete fields found).toOption.map (·, rest) := by
  cases complete fields found <;> rfl

theorem recordMembers_of_member {depth : Nat} (hfields : ∀ f ∈ fields, f.read = readText)
    {behindQuote behindName behindColon tail : List Char} {name : String}
    (hquote : skipGaps cs = '"' :: behindQuote)
    (hname : readString [] behindQuote = some (name, behindName))
    (hcolon : skipGaps behindName = ':' :: behindColon)
    (hvalue : readValue depth behindColon = some (v, tail)) (fuel : Nat)
    (found : List (String × Json)) :
    (recordMembers fields (fuel + 1) found cs).toOption =
      if isField fields name then
        if (found.lookup name).isSome then none
        else (asStr? v).bind fun s =>
          (recordTail fields fuel ((name, .str s) :: found) (skipGaps tail)).toOption
      else (recordTail fields fuel found (skipGaps tail)).toOption := by
  unfold recordMembers isField
  simp only [hquote, hname, hcolon, orMalformed, bind, Except.bind]
  cases hfield : fields.find? (·.name == name) with
  | none =>
    simp only [Option.isSome_none, Bool.false_and, Bool.false_eq_true, if_false,
      skipValue_of_readValue hvalue, Except.map]
    rfl
  | some f =>
    have htext := readText_of_readValue hvalue
    rw [← hfields f (List.mem_of_find?_eq_some hfield)] at htext
    simp only [Option.isSome_some, Bool.true_and, if_true]
    cases (found.lookup name).isSome with
    | true => rfl
    | false =>
      rcases hread : f.read behindColon with fault | x
      · rw [hread] at htext
        rw [Option.map_eq_none_iff.mp htext.symm]
        rfl
      · rw [hread] at htext
        obtain ⟨s, hs, rfl⟩ := Option.map_eq_some_iff.mp htext.symm
        rw [hs]
        rfl

theorem recordMembers_of_readMembers {depth : Nat} (hfields : ∀ f ∈ fields, f.read = readText)
    {done all : List (String × Json)}
    (h : readMembers (readValue depth) fuel done cs = some (all, rest)) :
    ∃ members, all = done.reverse ++ members ∧ ∀ found,
      (recordMembers fields fuel found cs).toOption =
        (keepTexts fields found members).map (·, rest) := by
  fun_induction readMembers (readValue depth) fuel done cs with
  | case1 | case2 | case3 | case6 | case7 | case8 => cases h
  | case4 fuel done cs _ hquote name _ hname text hcolon v tail hitem rest' hmark ih =>
    obtain ⟨members, hall, hread⟩ := ih h
    refine ⟨(name, v) :: members, by rw [hall]; simp, fun found => ?_⟩
    rw [recordMembers_of_member hfields hquote hname hcolon hitem, hmark, keepTexts]
    simp only [recordTail, hread]
    cases isField fields name <;> cases (found.lookup name).isSome <;> cases asStr? v <;> rfl
  | case5 fuel done cs _ hquote name _ hname text hcolon v tail hitem rest' hmark =>
    cases h
    refine ⟨[(name, v)], by simp, fun found => ?_⟩
    rw [recordMembers_of_member hfields hquote hname hcolon hitem, hmark, keepTexts]
    simp only [recordTail, keepTexts, toOption_complete]
    cases isField fields name <;> cases (found.lookup name).isSome <;> cases asStr? v <;> rfl

/-! ## Each field once -/

theorem lookup_eq_head? (ms : List (String × Json)) (name : String) :
    ms.lookup name = (ms.filter (·.1 == name)).head?.map (·.2) := by
  induction ms with
  | nil => rfl
  | cons m ms ih =>
    rw [List.lookup_cons, List.filter_cons, BEq.comm, ih]
    cases m.1 == name <;> rfl

theorem lookup_eq_none_iff : ms.lookup name = none ↔ ms.filter (·.1 == name) = [] := by
  rw [lookup_eq_head?, Option.map_eq_none_iff, List.head?_eq_none_iff]

theorem lookup_eq_some_iff (h : (ms.filter (·.1 == name)).length ≤ 1) :
    ms.lookup name = some v ↔ ms.filter (·.1 == name) = [(name, v)] := by
  have hnamed : ∀ m ∈ ms.filter (·.1 == name), m.1 = name :=
    fun m hm => eq_of_beq (List.mem_filter.mp hm).2
  rw [lookup_eq_head?]
  generalize ms.filter (·.1 == name) = found at h hnamed
  rcases found with _ | ⟨⟨n, u⟩, _ | ⟨_, _⟩⟩
  · simp
  · obtain rfl : n = name := hnamed (n, u) List.mem_cons_self
    simp
  · simp at h

theorem asStr?_eq_some_iff {s : String} : asStr? v = some s ↔ v = .str s := by
  cases v <;> simp [asStr?]

theorem isField_texts : isField (texts.map (.text ·.1)) name = true ↔ ∃ t ∈ texts, t.1 = name := by
  unfold isField
  rw [List.find?_isSome]
  simp [FieldReader.text, FieldSpec.required]

theorem complete_texts_iff (hfound : ∀ t ∈ texts, (found.filter (·.1 == t.1)).length ≤ 1) :
    (∃ kept, (complete (texts.map (.text ·.1)) found).toOption = some kept ∧
      ∀ t ∈ texts, kept.lookup t.1 = some (.str t.2)) ↔
    ∀ t ∈ texts, found.filter (·.1 == t.1) = [(t.1, .str t.2)] := by
  have hlookup (t : String × String) (ht : t ∈ texts) :=
    lookup_eq_some_iff (v := .str t.2) (hfound t ht)
  rw [← forall₂_congr hlookup]
  unfold complete
  constructor
  · rintro ⟨kept, hkept, htexts⟩
    split at hkept <;> cases hkept
    exact htexts
  · intro htexts
    refine ⟨found, ?_, htexts⟩
    rw [if_pos]
    · rfl
    · rw [List.all_map, List.all_eq_true]
      intro t ht
      change ((FieldReader.text t.1).mayLack || (found.lookup t.1).isSome) = true
      rw [htexts t ht]
      rfl

theorem length_filter_cons_le {u : String} (hbefore : found.lookup name = none)
    (hfound : (found.filter (·.1 == u)).length ≤ 1) (v : Json) :
    (((name, v) :: found).filter (·.1 == u)).length ≤ 1 := by
  rw [List.filter_cons]
  split
  · rename_i hname
    rw [← eq_of_beq hname, lookup_eq_none_iff.mp hbefore]
    exact Nat.le_refl 1
  · exact hfound

theorem keepTexts_iff (hfound : ∀ t ∈ texts, (found.filter (·.1 == t.1)).length ≤ 1) :
    (∃ kept, keepTexts (texts.map (.text ·.1)) found ms = some kept ∧
      ∀ t ∈ texts, kept.lookup t.1 = some (.str t.2)) ↔
    ∀ t ∈ texts, (ms ++ found).filter (·.1 == t.1) = [(t.1, .str t.2)] := by
  induction ms generalizing found with
  | nil => exact complete_texts_iff hfound
  | cons m ms ih =>
    obtain ⟨name, v⟩ := m
    unfold keepTexts
    by_cases hfield : isField (texts.map (.text ·.1)) name = true
    · obtain ⟨t, ht, rfl⟩ := isField_texts.mp hfield
      have hcons : ((t.1, v) :: ms ++ found).filter (·.1 == t.1) =
          (t.1, v) :: (ms ++ found).filter (·.1 == t.1) := by
        rw [List.cons_append, List.filter_cons, if_pos (beq_self_eq_true t.1)]
      rw [if_pos hfield]
      cases hbefore : found.lookup t.1 with
      | some u =>
        refine iff_of_false (by simp) fun hall => ?_
        have hnone := (List.cons.inj (hcons.symm.trans (hall t ht))).2
        rw [List.filter_append, List.append_eq_nil_iff] at hnone
        rw [lookup_eq_none_iff.mpr hnone.2] at hbefore
        cases hbefore
      | none =>
        cases hs : asStr? v with
        | none =>
          refine iff_of_false (by simp) fun hall => ?_
          have hv := (Prod.mk.inj (List.cons.inj (hcons.symm.trans (hall t ht))).1).2
          rw [hv] at hs
          cases hs
        | some s =>
          obtain rfl := asStr?_eq_some_iff.mp hs
          rw [Option.isSome_none, if_neg Bool.false_ne_true, Option.bind_some,
            ih fun t' ht' => length_filter_cons_le hbefore (hfound t' ht') _]
          refine forall₂_congr fun t' _ => ?_
          -- The order of the members does not matter.
          have hmiddle : (ms ++ (t.1, str s) :: found).Perm ((t.1, str s) :: (ms ++ found)) :=
            List.perm_middle
          have hperm := hmiddle.filter (·.1 == t'.1)
          rw [← List.perm_singleton, ← List.perm_singleton]
          exact ⟨hperm.symm.trans, hperm.trans⟩
    · rw [if_neg hfield, ih hfound]
      refine forall₂_congr fun t ht => ?_
      have hne : ((name, v).1 == t.1) = false :=
        beq_false_of_ne fun h => hfield (isField_texts.mpr ⟨t, ht, h.symm⟩)
      rw [List.cons_append, List.filter_cons, hne]
      rfl

/-! ## The items of an array -/

/-- The fields of a record of texts, from the items of an array. -/
def takeTexts : List String → List Json → Option (List (String × Json))
  | [], [] => some []
  | name :: names, v :: items =>
    (asStr? v).bind fun s => (takeTexts names items).map ((name, .str s) :: ·)
  | _, _ => none

theorem skipGaps_skipGaps (cs : List Char) : skipGaps (skipGaps cs) = skipGaps cs :=
  List.dropWhile_idempotent isGap cs

theorem readText_skipGaps (cs : List Char) : readText (skipGaps cs) = readText cs := by
  unfold readText
  rw [skipGaps_skipGaps]

theorem not_close_of_readValue {depth : Nat} (h : readValue depth cs = some (v, rest))
    (tail : List Char) : skipGaps cs ≠ ']' :: tail := by
  intro hclose
  cases valueAt_of_readValue h with
  | scalar hscalar =>
    rw [hclose] at hscalar
    cases hscalar
  | noItems hopen => rw [hclose] at hopen; cases hopen
  | items hopen => rw [hclose] at hopen; cases hopen
  | noMembers hopen => rw [hclose] at hopen; cases hopen
  | members hopen => rw [hclose] at hopen; cases hopen

theorem next_of_readValue {depth : Nat} (h : readValue depth cs = some (v, rest)) (name : String)
    (fields : List FieldReader) :
    (recordItems.next (.text name) fields cs).toOption = (asStr? v).bind fun s =>
      (recordItems fields false rest).toOption.map fun x => ((name, .str s) :: x.1, x.2) := by
  have htext := readText_of_readValue h
  have hfield : (FieldReader.text name).read cs = readText cs := rfl
  unfold recordItems.next
  rw [hfield]
  rcases hread : readText cs with fault | x
  · rw [hread] at htext
    rw [Option.map_eq_none_iff.mp htext.symm]
    rfl
  · rw [hread] at htext
    obtain ⟨s, hs, rfl⟩ := Option.map_eq_some_iff.mp htext.symm
    rw [hs, Option.bind_some]
    change Except.toOption ((recordItems fields false rest).bind _) = _
    cases recordItems fields false rest <;> rfl

theorem next_skipGaps (name : String) (fields : List FieldReader) (cs : List Char) :
    recordItems.next (.text name) fields (skipGaps cs) =
      recordItems.next (.text name) fields cs := by
  unfold recordItems.next
  have hread : (FieldReader.text name).read (skipGaps cs) = (FieldReader.text name).read cs :=
    readText_skipGaps cs
  rw [hread]

theorem recordItems_close {tail : List Char} (hmark : skipGaps tail = ']' :: rest)
    (names : List String) (first : Bool) :
    (recordItems (names.map .text) first tail).toOption = (takeTexts names []).map (·, rest) := by
  unfold recordItems
  cases names with
  | nil =>
    simp only [List.map_nil, hmark]
    rfl
  | cons name names =>
    simp only [List.map_cons, hmark]
    rfl

theorem recordItems_comma {tail : List Char} (hmark : skipGaps tail = ',' :: rest)
    (hmore : ∀ tail, skipGaps rest ≠ ']' :: tail) (name : String) (fields : List FieldReader) :
    recordItems (.text name :: fields) false tail =
      recordItems.next (.text name) fields rest := by
  rw [← next_skipGaps, recordItems, hmark]
  split
  · rename_i heq
    cases heq
  · rename_i heq
    cases heq
    rw [if_neg Bool.false_ne_true, if_pos rfl]
    split
    · rename_i hclose
      exact absurd hclose (hmore _)
    · rfl
  · rename_i heq
    cases heq

theorem exists_of_readItems {item : List Char → Option (Json × List Char)} {done all : List Json}
    (h : readItems item fuel done cs = some (all, rest)) : ∃ v tail, item cs = some (v, tail) := by
  revert h
  fun_cases readItems item fuel done cs with
  | case1 | case2 => rintro ⟨⟩
  | case3 _ _ _ v tail hitem | case4 _ _ _ v tail hitem | case5 _ _ _ v tail hitem =>
    exact fun _ => ⟨v, tail, hitem⟩

theorem next_of_readItems {depth : Nat} {done all : List Json}
    (h : readItems (readValue depth) fuel done cs = some (all, rest)) :
    ∃ v items, all = done.reverse ++ v :: items ∧ ∀ name names,
      (recordItems.next (.text name) (names.map .text) cs).toOption =
        (takeTexts (name :: names) (v :: items)).map (·, rest) := by
  have htake (name : String) (names : List String) (v : Json) (items : List Json) :
      (takeTexts (name :: names) (v :: items)).map (·, rest) =
        (asStr? v).bind fun s => ((takeTexts names items).map (·, rest)).map fun x =>
          ((name, .str s) :: x.1, x.2) := by
    rw [takeTexts]
    cases asStr? v <;> cases takeTexts names items <;> rfl
  fun_induction readItems (readValue depth) fuel done cs with
  | case1 | case2 | case5 => cases h
  | case3 fuel done cs v tail hitem rest' hmark ih =>
    obtain ⟨u, items, hall, hnext⟩ := ih h
    refine ⟨v, u :: items, by rw [hall]; simp, fun name names => ?_⟩
    rw [next_of_readValue hitem, htake]
    congr 1
    funext s
    congr 1
    cases names with
    | nil =>
      unfold recordItems
      simp only [List.map_nil, hmark]
      rfl
    | cons name names =>
      obtain ⟨_, _, hread⟩ := exists_of_readItems h
      rw [← hnext, List.map_cons, recordItems_comma hmark (not_close_of_readValue hread)]
  | case4 fuel done cs v tail hitem rest' hmark =>
    cases h
    refine ⟨v, [], by simp, fun name names => ?_⟩
    rw [next_of_readValue hitem, htake]
    congr 1
    funext s
    rw [recordItems_close hmark]

theorem recordItems_of_readItems {depth : Nat} {tail : List Char} {all : List Json}
    (hmore : ∀ rest, skipGaps tail ≠ ']' :: rest)
    (h : readItems (readValue depth) fuel [] (skipGaps tail) = some (all, rest))
    (names : List String) :
    (recordItems (names.map .text) true tail).toOption = (takeTexts names all).map (·, rest) := by
  obtain ⟨v, items, rfl, hnext⟩ := next_of_readItems h
  cases names with
  | nil =>
    unfold recordItems
    simp only [List.map_nil]
    rfl
  | cons name names =>
    rw [List.reverse_nil, List.nil_append, ← hnext, List.map_cons, recordItems]
    split
    · rename_i hclose
      exact absurd hclose (hmore _)
    · rename_i c cs _ hgaps
      rw [if_pos rfl, hgaps]
    · rename_i hgaps
      obtain ⟨_, _, hread⟩ := exists_of_readItems h
      rw [hgaps] at hread
      cases depth <;> cases hread

theorem takeTexts_iff (hnames : (texts.map (·.1)).Nodup) {items : List Json} :
    (∃ kept, takeTexts (texts.map (·.1)) items = some kept ∧
      ∀ t ∈ texts, kept.lookup t.1 = some (.str t.2)) ↔ items = texts.map (.str ·.2) := by
  induction texts generalizing items with
  | nil =>
    cases items <;> simp [takeTexts]
  | cons t texts ih =>
    rw [List.map_cons, List.nodup_cons] at hnames
    have hother (u : Json) (kept : List (String × Json)) (t' : String × String) (ht' : t' ∈ texts) :
        ((t.1, u) :: kept).lookup t'.1 = kept.lookup t'.1 := by
      have hne : (t'.1 == t.1) = false :=
        beq_false_of_ne fun h => hnames.1 (h ▸ List.mem_map_of_mem ht')
      rw [List.lookup_cons, hne]
    cases items with
    | nil => simp [takeTexts]
    | cons v items =>
      rw [List.map_cons, List.map_cons, takeTexts, List.cons.injEq, ← ih hnames.2]
      constructor
      · rintro ⟨kept, hkept, htexts⟩
        obtain ⟨s, hs, hkept⟩ := Option.bind_eq_some_iff.mp hkept
        obtain ⟨kept, htake, rfl⟩ := Option.map_eq_some_iff.mp hkept
        rw [List.forall_mem_cons, List.lookup_cons_self, Option.some.injEq] at htexts
        refine ⟨(asStr?_eq_some_iff.mp hs).trans htexts.1, kept, htake, fun t' ht' => ?_⟩
        rw [← htexts.2 t' ht', hother _ _ t' ht']
      · rintro ⟨rfl, kept, htake, htexts⟩
        refine ⟨(t.1, .str t.2) :: kept, by rw [htake]; rfl, ?_⟩
        rw [List.forall_mem_cons, List.lookup_cons_self]
        refine ⟨rfl, fun t' ht' => ?_⟩
        rw [hother _ _ t' ht', htexts t' ht']

/-! ## The record -/

/-- The value is a record of the texts under their names: an object that has each name once, with
its text, and whatever other members, or an array of the texts alone, in their order. -/
inductive HoldsTexts (texts : List (String × String)) : Json → Prop
  | members {ms : List (String × Json)}
      (h : ∀ t ∈ texts, ms.filter (·.1 == t.1) = [(t.1, .str t.2)]) : HoldsTexts texts (.obj ms)
  | items : HoldsTexts texts (.arr (texts.map (.str ·.2)))

/-- The fields of a record of texts, from a value. -/
def textsOf? (names : List String) : Json → Option (List (String × Json))
  | .obj ms => keepTexts (names.map .text) [] ms
  | .arr items => takeTexts names items
  | _ => none

theorem readRecord_of_read? {s : String} (h : read? s = some v) (names : List String) :
    (readRecord (names.map .text) s).toOption = textsOf? names v := by
  have htexts : ∀ f ∈ names.map FieldReader.text, f.read = readText := by
    intro f hf
    obtain ⟨name, -, rfl⟩ := List.mem_map.mp hf
    rfl
  unfold read? at h
  split at h
  · rename_i v rest hread
    split at h
    · rename_i hend
      cases h
      -- What is left behind the record is what is left behind the value.
      have hfinish {x : Except Fault (List (String × Json) × List Char)}
          {kept? : Option (List (String × Json))} (hx : x.toOption = kept?.map (·, rest)) :
          (x.bind fun y =>
            if (skipGaps y.2).isEmpty then .ok y.1 else .error .malformed).toOption = kept? := by
        cases x with
        | error => exact (Option.map_eq_none_iff.mp hx.symm).symm
        | ok y =>
          obtain ⟨kept, rfl, rfl⟩ := Option.map_eq_some_iff.mp hx.symm
          simp only [Except.bind, hend, if_true]
          rfl
      unfold readRecord
      cases valueAt_of_readValue hread with
      | scalar hscalar =>
        have hopen := not_open_of_readScalar hscalar
        have hnone : textsOf? names v = none := by
          have := isScalar_of_readScalar hscalar
          cases v <;> first | rfl | cases this
        rw [hnone]
        split
        · rename_i heq
          exact absurd heq (hopen.1 _)
        · rename_i heq
          exact absurd heq (hopen.2 _)
        · rfl
      | noItems hopen hclose =>
        simp only [hopen]
        exact hfinish (recordItems_close hclose names true)
      | @items depth _ tail _ _ hopen hmore hitems =>
        simp only [hopen]
        exact hfinish (recordItems_of_readItems hmore hitems names)
      | noMembers hopen hclose =>
        simp only [hopen, hclose]
        exact hfinish (toOption_complete _ [] _)
      | members hopen hmore hmembers =>
        simp only [hopen]
        obtain ⟨members, rfl, hrecord⟩ := recordMembers_of_readMembers htexts hmembers
        exact hfinish (hrecord [])
    · cases h
  · cases h

/-- A record of texts is read from whatever text of JSON spells one. -/
theorem readRecord_texts_iff (hnames : (texts.map (·.1)).Nodup) {s : String}
    (h : read? s = some v) :
    (∃ kept, readRecord (texts.map (.text ·.1)) s = .ok kept ∧
      ∀ t ∈ texts, kept.lookup t.1 = some (.str t.2)) ↔ HoldsTexts texts v := by
  have hok (kept : List (String × Json)) :
      readRecord (texts.map (.text ·.1)) s = .ok kept ↔ textsOf? (texts.map (·.1)) v = some kept := by
    rw [← readRecord_of_read? h, List.map_map]
    change _ ↔ (readRecord (texts.map (.text ·.1)) s).toOption = some kept
    cases readRecord (texts.map (.text ·.1)) s <;> simp [Except.toOption]
  simp only [hok]
  cases v with
  | obj ms =>
    have hempty : ∀ t ∈ texts,
        (([] : List (String × Json)).filter (·.1 == t.1)).length ≤ 1 := fun _ _ => Nat.zero_le 1
    unfold textsOf?
    rw [List.map_map]
    refine (keepTexts_iff hempty).trans ?_
    rw [List.append_nil]
    exact ⟨.members, fun | .members h => h⟩
  | arr items =>
    refine (takeTexts_iff hnames).trans ?_
    constructor
    · rintro rfl
      exact .items
    · rintro ⟨⟩
      rfl
  | null | bool | int | float | str =>
    refine iff_of_false ?_ ?_
    · rintro ⟨kept, hkept, -⟩
      cases hkept
    · rintro ⟨⟩

end Cadence.Json
