import Cadence.Log.Folder
import Cadence.Proofs.Text.Lookup

/-!
# Entries and files of a directory

What the operations on a directory come to where they succeed: which entries there are afterwards,
and which files. And when they do succeed.
-/

namespace Cadence.LogFolder

/-! ## Entries -/

theorem filter_not_take {α : Type} {es : List (String × α)} (hnames : (es.map (·.1)).Nodup)
    (k : Nat) : (es.filter fun e => !((es.map (·.1)).take k).contains e.1) = es.drop k := by
  have hgone : ((es.take k).filter fun e => !((es.map (·.1)).take k).contains e.1) = [] := by
    rw [List.filter_eq_nil_iff]
    intro e he
    have hmem : e.1 ∈ (es.map (·.1)).take k := by
      rw [← List.map_take]
      exact List.mem_map_of_mem he
    simp [hmem]
  have hleft : ((es.drop k).filter fun e => !((es.map (·.1)).take k).contains e.1) = es.drop k := by
    rw [List.filter_eq_self]
    intro e he
    have hmem : e.1 ∈ (es.map (·.1)).drop k := by
      rw [← List.map_drop]
      exact List.mem_map_of_mem he
    have hnot : e.1 ∉ (es.map (·.1)).take k := fun hin =>
      List.disjoint_take_drop hnames (Nat.le_refl k) hin hmem
    simp [hnot]
  calc (es.filter fun e => !((es.map (·.1)).take k).contains e.1)
      = (es.take k ++ es.drop k).filter fun e => !((es.map (·.1)).take k).contains e.1 := by
        rw [List.take_append_drop]
    _ = es.drop k := by rw [List.filter_append, hgone, hleft, List.nil_append]

variable {d d' : LogFolder} {name n : String}

theorem entry?_without (d : LogFolder) (name n : String) :
    LogFolder.entry? (d.without name) n = if n = name then none else d.entry? n := by
  unfold entry? without
  rw [lookup_filter (· != name)]
  by_cases hname : n = name <;> simp [hname]

theorem file?_eq_some {f : LogFile} (h : d.file? name = some f) :
    ∃ id, d.entry? name = some (.file id) ∧ d.files[id]? = some f := by
  unfold file? at h
  split at h
  · rename_i id hentry
    exact ⟨id, hentry, h⟩
  · cases h

theorem overwrite_end {place : Option Nat} {old : List UInt8}
    (h : place = none ∨ place = some old.length) (new : List UInt8) :
    overwrite place new old = old ++ new := by
  rcases h with rfl | rfl
  · rfl
  · unfold overwrite
    cases new with
    | nil => simp
    | cons b bs => simp

/-! ## Operations that succeed -/

theorem openFile?_of_none {keep : Bool} {id : Nat} (hnone : d.entry? name = none)
    (h : d.openFile? name keep = some (id, d')) :
    id = d.files.length ∧
      d' = ⟨d.entries ++ [(name, .file d.files.length)], d.files ++ [LogFile.mk false []]⟩ := by
  unfold openFile? at h
  rw [hnone] at h
  simp only [Option.ite_none_right_eq_some, Option.some.injEq, Prod.mk.injEq] at h
  exact ⟨h.2.1.symm, h.2.2.symm⟩

theorem rename?_eq_some {old new : String} {e : LogEntry} (hentry : d.entry? old = some e)
    (h : d.rename? old new = some d') :
    d' = { d with entries := ((d.without old).without new).entries ++ [(new, e)] } := by
  unfold rename? at h
  rw [hentry] at h
  split at h
  · cases h
  · cases h
  · rename_i heq _ _
    cases heq
    rw [Option.ite_none_right_eq_some, Option.some.injEq] at h
    exact h.2.symm
  · rename_i heq
    cases heq

theorem compress_cases {refuses : FileOp → Bool} {packed? : Option String}
    (h : d.compress refuses name = (packed?, d')) :
    packed? = none ∧ d' = d ∨
      ∃ f id d₁, d.file? name = some f ∧ d.openFile? (name ++ ".gz") false = some (id, d₁) ∧
        (packed? = none ∧ (d' = d₁ ∨ d' = d₁.setFile id ⟨true, f.bytes⟩) ∨
          packed? = some (name ++ ".gz") ∧ d' = (d₁.setFile id ⟨true, f.bytes⟩).without name) := by
  unfold compress at h
  split at h
  · rename_i f hfile _
    split at h
    · rename_i id d₁ hopen
      refine .inr ⟨f, id, d₁, hfile, hopen, ?_⟩
      split at h
      · cases h
        exact .inl ⟨rfl, .inl rfl⟩
      · simp only at h
        split at h
        · cases h
          exact .inl ⟨rfl, .inr rfl⟩
        · cases h
          exact .inr ⟨rfl, rfl⟩
    · cases h
      exact .inl ⟨rfl, rfl⟩
  · cases h
    exact .inl ⟨rfl, rfl⟩

theorem compress_eq_some {refuses : FileOp → Bool} {packed : String}
    (h : d.compress refuses name = (some packed, d')) :
    ∃ f id d₁, d.file? name = some f ∧ d.openFile? (name ++ ".gz") false = some (id, d₁) ∧
      packed = name ++ ".gz" ∧ d' = (d₁.setFile id ⟨true, f.bytes⟩).without name := by
  rcases compress_cases h with
    ⟨hnone, -⟩ | ⟨f, id, d₁, hfile, hopen, ⟨hnone, -⟩ | ⟨hpacked, hd'⟩⟩
  · cases hnone
  · cases hnone
  · exact ⟨f, id, d₁, hfile, hopen, Option.some.inj hpacked, hd'⟩

theorem removeAll_cons {refuses : FileOp → Bool} {n : String} {names : List String} {all : Bool}
    (h : removeAll refuses (n :: names) d = (all, d')) :
    (∃ id, d.entry? n = some (.file id)) ∧ removeAll refuses names (d.without n) = (all, d') ∨
      all = false ∧ d' = d := by
  unfold removeAll at h
  split at h
  · rename_i d₁ hremove _
    unfold remove? at hremove
    split at hremove
    · rename_i id hfile
      cases hremove
      exact .inl ⟨⟨id, hfile⟩, h⟩
    · cases hremove
  · cases h
    exact .inr ⟨rfl, rfl⟩

theorem removeAll_eq_true {refuses : FileOp → Bool} {names : List String}
    (h : removeAll refuses names d = (true, d')) :
    d' = { d with entries := d.entries.filter fun e => !names.contains e.1 } := by
  induction names generalizing d with
  | nil =>
    cases h
    have hall : d'.entries.filter (fun e => !([] : List String).contains e.1) = d'.entries :=
      List.filter_eq_self.mpr fun _ _ => rfl
    rw [hall]
  | cons n names ih =>
    rcases removeAll_cons h with ⟨-, h⟩ | ⟨hall, -⟩
    · rw [ih h]
      unfold without
      simp only [List.filter_filter, mk.injEq, and_true]
      congr 1
      funext e
      rw [List.contains_cons, Bool.not_or, Bool.and_comm]
      rfl
    · cases hall

/-! ## Operations that the directory allows -/

theorem openFile?_isSome (hnone : d.entry? name = none) (hname : isName name = true) (keep : Bool) :
    ∃ id d', d.openFile? name keep = some (id, d') := by
  unfold openFile?
  rw [hnone]
  exact ⟨_, _, if_pos hname⟩

theorem rename?_isSome {old new : String} {e : LogEntry} (hentry : d.entry? old = some e)
    (hnone : d.entry? new = none) (hname : isName new = true) :
    ∃ d', d.rename? old new = some d' := by
  unfold rename?
  rw [hentry, hnone]
  cases e <;> exact ⟨_, if_pos hname⟩

theorem compress_isSome {refuses : FileOp → Bool} (hsound : ∀ op, refuses op = false) {f : LogFile}
    (hfile : d.file? name = some f) (hnone : d.entry? (name ++ ".gz") = none)
    (hname : isName (name ++ ".gz") = true) :
    ∃ packed d', d.compress refuses name = (some packed, d') := by
  obtain ⟨id, d', hopen⟩ := openFile?_isSome hnone hname false
  unfold compress
  simp only [hfile, hsound, hopen]
  exact ⟨_, _, rfl⟩

theorem removeAll_of_files {refuses : FileOp → Bool} (hsound : ∀ op, refuses op = false)
    {names : List String} (hnames : names.Nodup)
    (hfiles : ∀ n ∈ names, ∃ id, d.entry? n = some (.file id)) :
    ∃ d', removeAll refuses names d = (true, d') := by
  induction names generalizing d with
  | nil => exact ⟨d, rfl⟩
  | cons n names ih =>
    rw [List.nodup_cons] at hnames
    rw [List.forall_mem_cons] at hfiles
    obtain ⟨⟨id, hentry⟩, hothers⟩ := hfiles
    have hremove : d.remove? n = some (d.without n) := by
      unfold remove?
      rw [hentry]
    have hleft : ∀ m ∈ names, ∃ id, LogFolder.entry? (d.without n) m = some (.file id) := by
      intro m hm
      rw [entry?_without, if_neg (by rintro rfl; exact hnames.1 hm)]
      exact hothers m hm
    unfold removeAll
    simp only [hremove, hsound]
    exact ih hnames.2 hleft

end Cadence.LogFolder
