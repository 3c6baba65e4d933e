import Cadence.Proofs.Job.Effect

/-!
# The ids of new rows

A new row takes the number after the greatest id, so that ids stay distinct.
-/

namespace Cadence

namespace JobStore

/-- The ids are within the bounds of their type. -/
def IdsInRange (s : JobStore) : Prop := ∀ id ∈ s.ids, Text.i32Min ≤ id ∧ id ≤ Text.i32Max

instance (s : JobStore) : Decidable s.IdsInRange :=
  inferInstanceAs (Decidable (∀ id ∈ s.ids, Text.i32Min ≤ id ∧ id ≤ Text.i32Max))

/-! ## The greatest id -/

theorem le_foldl_max (ids : List Int) (m : Int) :
    m ≤ ids.foldl max m ∧ ∀ id ∈ ids, id ≤ ids.foldl max m := by
  induction ids generalizing m with
  | nil =>
    refine ⟨Int.le_refl m, fun id hid => ?_⟩
    cases hid
  | cons id rest ih =>
    obtain ⟨hfirst, hrest⟩ := ih (max m id)
    rw [List.foldl_cons]
    refine ⟨by omega, fun i hi => ?_⟩
    rcases List.mem_cons.mp hi with rfl | hi
    · omega
    · exact hrest i hi

theorem le_greatestId {s : JobStore} {id : Int} (h : id ∈ s.ids) : id ≤ s.greatestId := by
  unfold greatestId
  split
  · rename_i hids
    rw [hids] at h
    cases h
  · rename_i first rest hids
    rw [hids] at h
    obtain ⟨hfirst, hrest⟩ := le_foldl_max rest first
    rcases List.mem_cons.mp h with rfl | h
    · exact hfirst
    · exact hrest id h

theorem greatestId_append (s : JobStore) (job : NewJob) (clock : Instant) :
    (s.append job clock).greatestId = s.greatestId + 1 := by
  have hids := s.ids_append job clock
  generalize hnew : s.greatestId + 1 = id at hids
  unfold greatestId at hnew ⊢
  rw [hids]
  cases hs : s.ids with
  | nil =>
    rw [hs] at hnew
    exact hnew.symm ▸ rfl
  | cons first rest =>
    simp only [hs] at hnew
    simp only [List.cons_append, List.foldl_append, List.foldl_cons, List.foldl_nil]
    omega

/-! ## Distinct ids -/

theorem DistinctIds.append {s : JobStore} (h : s.DistinctIds) (job : NewJob) (clock : Instant) :
    (s.append job clock).DistinctIds := by
  have hnew : s.greatestId + 1 ∉ s.ids := fun hid => by
    have := le_greatestId hid
    omega
  unfold DistinctIds
  rw [ids_append, List.perm_append_comm.nodup_iff, List.singleton_append, List.nodup_cons]
  exact ⟨hnew, h⟩

theorem DistinctIds.put {s : JobStore} (h : s.DistinctIds) (row : Job) :
    (s.put row).DistinctIds := by
  unfold DistinctIds
  rw [ids_put]
  exact h

theorem DistinctIds.effect {s t : JobStore} {x : Exchange} (h : s.DistinctIds)
    (heffect : Effect s x t) : t.DistinctIds := by
  cases heffect with
  | refused | list | listActive | present | brokenFailure | brokenInsertion => exact h
  | executed | brokenRun | failed => exact h.put _
  | inserted job clock => exact h.append job clock

end JobStore

end Cadence
