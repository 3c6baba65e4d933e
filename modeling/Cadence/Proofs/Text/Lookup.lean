import Mathlib.Data.List.Nodup

/-!
# Members by name

What is found under a name, in lists in which no name stands twice.
-/

namespace Cadence

variable {α : Type}

theorem lookup_eq_none {ms : List (String × α)} {name : String}
    (h : name ∉ ms.map (·.1)) : ms.lookup name = none := by
  rw [List.lookup_eq_none_iff]
  intro m hm
  have hne : name ≠ m.1 := by
    rintro rfl
    exact h (List.mem_map_of_mem hm)
  exact bne_iff_ne.mpr hne

theorem lookup_of_mem {es : List (String × α)} (hnames : (es.map (·.1)).Nodup)
    {e : String × α} (he : e ∈ es) : es.lookup e.1 = some e.2 := by
  induction es with
  | nil => cases he
  | cons f es ih =>
    rw [List.map_cons, List.nodup_cons] at hnames
    rcases List.mem_cons.mp he with rfl | he
    · exact List.lookup_cons_self
    · have hne : (e.1 == f.1) = false := by
        rw [beq_eq_false_iff_ne]
        intro heq
        exact hnames.1 (heq ▸ List.mem_map_of_mem he)
      rw [List.lookup_cons, hne]
      exact ih hnames.2 he

theorem lookup_filter (p : String → Bool) (es : List (String × α)) (name : String) :
    (es.filter fun e => p e.1).lookup name = if p name = true then es.lookup name else none := by
  induction es with
  | nil => simp
  | cons e es ih =>
    obtain ⟨n, v⟩ := e
    rw [List.lookup_cons]
    by_cases hname : name = n
    · subst hname
      cases hp : p name with
      | false => rw [List.filter_cons_of_neg (by simp [hp]), ih, hp]; rfl
      | true =>
        rw [List.filter_cons_of_pos (by exact hp), List.lookup_cons, beq_self_eq_true, if_pos rfl]
    · rw [beq_eq_false_iff_ne.mpr hname]
      cases hp : p n with
      | false => rw [List.filter_cons_of_neg (by simp [hp]), ih]
      | true =>
        rw [List.filter_cons_of_pos (by exact hp), List.lookup_cons, beq_eq_false_iff_ne.mpr hname]
        exact ih

end Cadence
