import Cadence.Proofs.Url.Origin
import Mathlib.Tactic.SplitIfs

/-!
# Paths from the root

A reference that is a path from the root keeps the host of its base and replaces all the rest.
-/

namespace Cadence.Url

/-! ## What is read by itself -/

theorem readPath_segments (scheme : String) (cs : List Char) :
    ∃ names, readPath scheme cs = .segments names := by
  unfold readPath
  cases cs with
  | nil => exact ⟨_, rfl⟩
  | cons c rest => exact ⟨_, rfl⟩

variable [HostNames]

theorem of_readFromAuthority {scheme : String} {cs : List Char} {u : Url}
    (h : readFromAuthority scheme cs = .ok u) :
    u.scheme = scheme ∧ ∃ names, u.path = .segments names := by
  unfold readFromAuthority at h
  simp only [bind, Except.bind] at h
  split at h
  · cases h
  · cases h
    exact ⟨rfl, readPath_segments _ _⟩

theorem of_readFile {cs : List Char} {u : Url} (h : readFile none cs = .ok u) :
    u.scheme = "file" ∧ ∃ names, u.path = .segments names := by
  have hfile {host : Host} {rest : List Char} {query fragment : Option (List Char)}
      (h : .ok (withTail ⟨"file", "", "", some host, none, readPath "file" rest, none, none⟩ query
        fragment) = (.ok u : Except Fault Url)) :
      u.scheme = "file" ∧ ∃ names, u.path = .segments names := by
    cases h
    exact ⟨rfl, readPath_segments _ _⟩
  unfold readFile at h
  simp only [bind, Except.bind, pure, Except.pure] at h
  split_ifs at h
  · exact hfile h
  · exact hfile h
  · exact hfile h
  · split at h
    · cases h
    · exact hfile h
  · exact hfile h

theorem of_readWithScheme {scheme : String} {cs : List Char} {u : Url}
    (h : readWithScheme none scheme cs = .ok u) :
    u.scheme = scheme ∧ (isSpecial scheme = true → ∃ names, u.path = .segments names) := by
  unfold readWithScheme at h
  split at h
  · rename_i hfile
    obtain ⟨hscheme, hpath⟩ := of_readFile h
    exact ⟨hscheme.trans hfile.symm, fun _ => hpath⟩
  · split at h
    · exact (of_readFromAuthority h).imp_right fun hpath _ => hpath
    · rename_i hplain
      split at h
      simp only at h
      split at h
      · exact (of_readFromAuthority h).imp_right fun hpath _ => hpath
      · cases h
        exact ⟨rfl, fun _ => readPath_segments scheme ('/' :: _)⟩
      · cases h
        exact ⟨rfl, fun hspecial => absurd hspecial hplain⟩

theorem path_of_parse {s : String} {u : Url} (h : parse s = .ok u)
    (hspecial : isSpecial u.scheme = true) : ∃ names, u.path = .segments names := by
  unfold parse read at h
  simp only at h
  split at h
  · obtain ⟨hscheme, hpath⟩ := of_readWithScheme h
    exact hpath (hscheme ▸ hspecial)
  · cases h

/-! ## Joining -/

theorem join_absolute {base : Url} {names : List String} {s : String} {front : List Char}
    (hspecial : isSpecial base.scheme = true) (hfile : base.scheme ≠ "file")
    (hpath : base.path = .segments names) (hclean : cleaned s = '/' :: front)
    (htail : cutTail ('/' :: front) = ('/' :: front, none, none))
    (hfront : front.head?.all (!isSlash ·) = true) :
    base.join s = .ok { base with
      path := .segments (walk [] (parts true front)), query := none, fragment := none } := by
  have hcut : cutScheme? (cleaned s) = none := by
    rw [hclean]
    rfl
  rw [join_of_no_scheme hcut hpath (by rw [hclean]; intro f heq; cases heq), if_neg hfile, hclean]
  unfold readRelative
  rw [htail]
  simp only [hspecial]
  split
  · rename_i heq
    cases heq
  · rename_i heq
    -- A second slash would begin an authority.
    rw [(List.cons.inj heq).2] at hfront
    cases hfront
  · rename_i c rest hnot heq
    cases heq
    have hone : ('/' :: front).takeWhile isSlash = ['/'] := by
      have hslash : isSlash '/' = true := rfl
      rw [List.takeWhile_cons, hslash, if_pos rfl]
      cases front with
      | nil => rfl
      | cons d ds =>
        have hd : isSlash d = false := by simpa using hfront
        rw [List.takeWhile_cons, hd, if_neg Bool.false_ne_true]
    rw [if_pos (by decide), hone, if_neg (by decide)]
    rfl

end Cadence.Url
