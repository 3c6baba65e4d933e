import Cadence.Json.Decode
import Cadence.Proofs.Text.Lookup

/-!
# Fields that are decoded
-/

namespace Cadence.Json

/-! ## Members that are there -/

theorem lookup_present {ms : List (String × Option Json)} (hnames : (ms.map (·.1)).Nodup)
    (name : String) : (present ms).lookup name = (ms.lookup name).join := by
  induction ms with
  | nil => rfl
  | cons m ms ih =>
    obtain ⟨n, v?⟩ := m
    rw [List.map_cons, List.nodup_cons] at hnames
    have hrest := ih hnames.2
    rw [List.lookup_cons]
    cases hname : name == n with
    | false =>
      cases v? with
      | none => exact hrest
      | some v =>
        change List.lookup name ((n, v) :: present ms) = _
        rw [List.lookup_cons, hname]
        exact hrest
    | true =>
      cases v? with
      | none =>
        -- The name does not come again.
        rw [eq_of_beq hname] at hrest ⊢
        rw [lookup_eq_none hnames.1] at hrest
        exact hrest
      | some v =>
        change List.lookup name ((n, v) :: present ms) = _
        rw [List.lookup_cons, hname]
        rfl

theorem nodup_present {ms : List (String × Option Json)} (hnames : (ms.map (·.1)).Nodup) :
    ((present ms).map (·.1)).Nodup := by
  refine hnames.sublist ?_
  clear hnames
  induction ms with
  | nil => exact .slnil
  | cons m ms ih =>
    obtain ⟨n, v?⟩ := m
    cases v? with
    | none => exact ih.cons n
    | some v => exact ih.cons_cons n

/-! ## Records -/

theorem length_filter_le_one {ms : List (String × Json)} (hnames : (ms.map (·.1)).Nodup)
    (name : String) : (ms.filter fun m => m.1 == name).length ≤ 1 := by
  induction ms with
  | nil => exact Nat.zero_le 1
  | cons m ms ih =>
    rw [List.map_cons, List.nodup_cons] at hnames
    rw [List.filter_cons]
    split
    · rename_i hname
      have hnone : (ms.filter fun m => m.1 == name) = [] := by
        rw [List.filter_eq_nil_iff]
        intro x hx heq
        have hmem : x.1 ∈ ms.map (·.1) := List.mem_map_of_mem hx
        rw [eq_of_beq heq, ← eq_of_beq hname] at hmem
        exact hnames.1 hmem
      rw [hnone]
      exact Nat.le_refl 1
    · exact ih hnames.2

theorem record?_obj (fields : List FieldSpec) {ms : List (String × Json)}
    (hnames : (ms.map (·.1)).Nodup) : record? fields (.obj ms) = some ms := by
  refine if_pos ?_
  unfold noneRepeated
  rw [List.all_eq_true]
  exact fun name _ => decide_eq_true (length_filter_le_one hnames name)

theorem asArray?_map {α : Type} {read : Json → Option α} {write : α → Json} {items : List α}
    (h : ∀ a ∈ items, read (write a) = some a) :
    asArray? read (.arr (items.map write)) = some items := by
  change (items.map write).mapM read = some items
  induction items with
  | nil => rfl
  | cons a items ih =>
    rw [List.forall_mem_cons] at h
    rw [List.map_cons, List.mapM_cons, h.1, ih h.2]
    rfl

/-! ## Fields -/

variable {α : Type} {read : Json → Option α} {ms : List (String × Json)} {name : String}

theorem required?_of_lookup {v : Json} (h : ms.lookup name = some v) :
    required? read ms name = read v := by
  unfold required?
  rw [h]
  rfl

theorem optional?_of_lookup {write : α → Json} {a? : Option α}
    (h : ms.lookup name = a?.map write) (hread : ∀ a, read (write a) = some a)
    (hnull : ∀ a, write a ≠ .null) : optional? read ms name = some a? := by
  unfold optional? defaulted?
  rw [h]
  cases a? with
  | none => rfl
  | some a =>
    simp only [Option.map_some]
    rw [nullable?, hread, Option.map_some]
    exact hnull a

theorem optional?_of_ofOption {write : α → Json} {a? : Option α}
    (h : ms.lookup name = some (ofOption (a?.map write)))
    (hread : ∀ a, a? = some a → read (write a) = some a)
    (hnull : ∀ a, a? = some a → write a ≠ .null) : optional? read ms name = some a? := by
  unfold optional? defaulted?
  rw [h]
  cases a? with
  | none => rfl
  | some a =>
    simp only [Option.map_some, ofOption, Option.getD_some]
    rw [nullable?, hread a rfl, Option.map_some]
    exact hnull a rfl

theorem asI32?_int {n : Int} (h : Text.i32Min ≤ n ∧ n ≤ Text.i32Max) : asI32? (.int n) = some n :=
  if_pos h

theorem asI64?_int {n : Int} (h : Text.i64Min ≤ n ∧ n ≤ Text.i64Max) : asI64? (.int n) = some n :=
  if_pos h

theorem asU64?_ofNat {n : Nat} (h : n ≤ Text.u64Max) : asU64? (.ofNat n) = some n := by
  have hin : (0 : Int) ≤ (n : Int) ∧ (n : Int) ≤ (Text.u64Max : Nat) := by omega
  change (if (0 : Int) ≤ n ∧ (n : Int) ≤ (Text.u64Max : Nat) then some (n : Int) else none).map
    Int.toNat = some n
  rw [if_pos hin]
  rfl

end Cadence.Json
