import Cadence.Proofs.Text.Digits
import Cadence.Proofs.Text.Split
import Cadence.Proofs.Url.Absolute
import Mathlib.Data.List.Basic

/-!
# The authority of a web URL

In the web's own schemes the authority ends at the first slash, question mark or number sign. No
host and no port ends with a blank or a control character, and so slashes at the end of a URL, and
what stands between them and the authority, can go.
-/

namespace Cadence.Url

/-- What no part of an authority ends with: a blank or a control character. -/
def isLow (c : Char) : Bool := c.toNat ≤ 32

theorem toNat_of_isLow {c : Char} (h : isLow c = true) : c.toNat ≤ 32 := by
  simpa [isLow] using h

/-! ## Bytes -/

theorem utf8EncodeChar_of_ascii {c : Char} (h : c.toNat < 128) :
    String.utf8EncodeChar c = [UInt8.ofNat c.toNat] := by
  have hc : c.toNat = c.val.toNat := rfl
  rw [String.utf8EncodeChar.eq_1, ← hc, if_pos (by omega)]

theorem toNat_of_mem_utf8EncodeChar {c : Char} {b : UInt8} (h : b ∈ String.utf8EncodeChar c)
    (hb : b.toNat < 128) : c.toNat = b.toNat := by
  have hc : c.toNat = c.val.toNat := rfl
  rw [String.utf8EncodeChar.eq_1, ← hc] at h
  split_ifs at h
  · rw [List.mem_singleton] at h
    subst h
    simp
    omega
  all_goals
    simp only [List.mem_cons, List.not_mem_nil, or_false] at h
    have hlead : 128 ≤ b.toNat := by
      rcases h with rfl | rfl | rfl | rfl <;> simp <;> omega
    omega

theorem mem_of_fromUTF8? {s : String} {bs : List UInt8} {b : UInt8}
    (h : String.fromUTF8? ⟨bs.toArray⟩ = some s) (hb : b ∈ bs) (hascii : b.toNat < 128) :
    ∃ c ∈ s.toList, c.toNat = b.toNat := by
  unfold String.fromUTF8? at h
  split at h
  · have hbytes : s.toByteArray = ⟨bs.toArray⟩ := by
      cases h
      rfl
    rw [← String.ofList_toList (s := s), String.toByteArray_ofList, List.utf8Encode.eq_1] at hbytes
    have hlist := congrArg (·.data.toList) hbytes
    simp only [List.data_toByteArray] at hlist
    rw [← hlist, List.mem_flatMap] at hb
    obtain ⟨c, hc, hmem⟩ := hb
    exact ⟨c, hc, toNat_of_mem_utf8EncodeChar hmem hascii⟩
  · cases h

theorem not_isLow_of_hexValue? {c : Char} {n : Nat} (h : hexValue? c = some n) :
    isLow c = false := by
  have hdigit : 48 ≤ c.toNat := by
    unfold hexValue? at h
    split_ifs at h with hdigit hlower hupper
    · simp only [Char.isDigit, Bool.and_eq_true, decide_eq_true_eq] at hdigit
      exact UInt32.le_iff_toNat_le.mp hdigit.1
    · exact le_trans (by decide) (UInt32.le_iff_toNat_le.mp hlower.1)
    · exact le_trans (by decide) (UInt32.le_iff_toNat_le.mp hupper.1)
  unfold isLow
  rw [decide_eq_false_iff_not]
  omega

theorem not_isLow_of_byteAt? {a b : Char} {byte : UInt8} (h : byteAt? ['%', a, b] = some byte) :
    isLow a = false ∧ isLow b = false := by
  unfold byteAt? at h
  cases ha : hexValue? a <;> cases hb : hexValue? b <;> simp [ha, hb] at h
  exact ⟨not_isLow_of_hexValue? ha, not_isLow_of_hexValue? hb⟩

theorem mem_decode {c : Char} (hc : isLow c = true) {cs : List Char} (h : c ∈ cs) :
    UInt8.ofNat c.toNat ∈ decode cs := by
  have hself : UInt8.ofNat c.toNat ∈ String.utf8EncodeChar c := by
    have hascii := toNat_of_isLow hc
    simp [utf8EncodeChar_of_ascii (show c.toNat < 128 by omega)]
  have hne {d : Char} (hd : isLow d = false) : c ≠ d := by
    rintro rfl
    simp [hc] at hd
  have hmark : c ≠ '%' := hne rfl
  fun_induction decode cs with
  | case1 => cases h
  | case2 a b rest byte hbyte ih =>
    obtain ⟨ha, hb⟩ := not_isLow_of_byteAt? hbyte
    simp only [List.mem_cons, hmark, hne ha, hne hb, false_or] at h
    exact List.mem_cons_of_mem _ (ih h)
  | case3 a b rest hbyte ih =>
    rw [List.mem_cons, or_iff_right hmark] at h
    exact List.mem_append_right _ (ih h)
  | case4 d rest hnot ih =>
    rcases List.mem_cons.mp h with rfl | h
    · exact List.mem_append_left _ hself
    · exact List.mem_append_right _ (ih h)

/-! ## Names and ports -/

theorem not_ascii?_of_blank [HostNames] {cs : List Char} {c : Char} (hc : isLow c = true)
    (h : c ∈ cs) : Domain.ascii? cs = none := by
  have hlow := toNat_of_isLow hc
  unfold Domain.ascii?
  cases hname : String.fromUTF8? ⟨(decode cs).toArray⟩ with
  | none => rfl
  | some name =>
    have hbyte : (UInt8.ofNat c.toNat).toNat = c.toNat := by
      simp
      omega
    obtain ⟨d, hd, heq⟩ := mem_of_fromUTF8? hname (mem_decode hc h) (by omega)
    have hforbidden : name.toList.any Domain.isForbidden = true := by
      refine List.any_eq_true.mpr ⟨d, hd, ?_⟩
      unfold Domain.isForbidden
      simp [heq.trans hbyte, hlow]
    simp only [hforbidden, if_true]

theorem not_readHost_of_blank [HostNames] {cs : List Char} {c : Char} (hc : isLow c = true)
    (h : cs.getLast? = some c) (host : Host) : readHost cs ≠ .ok host := by
  unfold readHost
  split
  · -- An address in brackets ends with one.
    have hbracketed : bracketed? cs = none := by
      unfold bracketed?
      split
      · rename_i rest _
        rw [if_neg]
        intro hclose
        match rest, hclose, h with
        | [], hclose, _ => cases hclose
        | d :: rest, hclose, h =>
          rw [List.getLast?_cons_cons, hclose] at h
          cases h
          simp [isLow] at hc
      · rfl
    simp [hbracketed]
  · simp [not_ascii?_of_blank hc (List.mem_of_getLast? h)]

theorem natOf?_of_blank {cs : List Char} {c : Char} (hc : isLow c = true) (h : c ∈ cs) :
    Text.natOf? cs = none := by
  rw [Option.eq_none_iff_forall_ne_some]
  intro n hn
  have hdigit := (Text.digits_of_natOf? hn).2 c h
  simp only [Char.isDigit, Bool.and_eq_true, decide_eq_true_eq] at hdigit
  have hlow := toNat_of_isLow hc
  have hzero := UInt32.le_iff_toNat_le.mp hdigit.1
  change 48 ≤ c.toNat at hzero
  omega

theorem not_readPort_of_blank {scheme : String} {cs : List Char} {c : Char} (hc : isLow c = true)
    (h : (':' :: cs).getLast? = some c) (port : Option Nat) :
    readPort scheme (':' :: cs) ≠ .ok port := by
  cases cs with
  | nil =>
    cases h
    simp [isLow] at hc
  | cons d cs =>
    rw [List.getLast?_cons_cons] at h
    unfold readPort
    simp [natOf?_of_blank hc (List.mem_of_getLast? h)]

/-! ## The authority -/

theorem spanHost_append (inside : Bool) (cs : List Char) :
    (spanHost inside cs).1 ++ (spanHost inside cs).2 = cs := by
  fun_induction spanHost inside cs with
  | case1 => rfl
  | case2 inside c cs h => rfl
  | case3 inside c cs h host rest hspan ih => simp_all

theorem spanHost_rest (inside : Bool) (cs : List Char) :
    (spanHost inside cs).2 = [] ∨ ∃ rest, (spanHost inside cs).2 = ':' :: rest := by
  fun_induction spanHost inside cs with
  | case1 => exact .inl rfl
  | case2 inside c cs h =>
    simp only [Bool.and_eq_true, decide_eq_true_eq] at h
    exact .inr ⟨cs, by rw [h.1]⟩
  | case3 inside c cs h host rest hspan ih => simp_all

theorem of_readAuthority [HostNames] {scheme : String} {cs : List Char} {a : Authority}
    (hspecial : isSpecial scheme = true) (h : readAuthority scheme cs = .ok a) :
    ∃ hostPort, (hostPort = cs ∨ ∃ user, cs = user ++ '@' :: hostPort) ∧
      readHost (spanHost false hostPort).1 = .ok a.host ∧
        readPort scheme (spanHost false hostPort).2 = .ok a.port := by
  unfold readAuthority at h
  simp only [bind, Except.bind, pure, Except.pure, throw, throwThe, MonadExceptOf.throw, hspecial,
    Bool.not_true, Bool.false_eq_true, if_false] at h
  split at h
  all_goals
    rename_i hcut
    split at h
    · cases h
    split at h
    · cases h
    rename_i hhost
    split at h
    · cases h
    rename_i hport
    cases h
  · exact ⟨_, .inr ⟨_, Text.eq_of_cutLast? hcut⟩, hhost, hport⟩
  · exact ⟨_, .inl rfl, hhost, hport⟩

theorem not_readAuthority_of_blank [HostNames] {scheme : String} {cs : List Char} {c : Char}
    (hspecial : isSpecial scheme = true) (hc : isLow c = true) (h : cs.getLast? = some c)
    (a : Authority) : readAuthority scheme cs ≠ .ok a := by
  intro ha
  obtain ⟨hostPort, hcs, hhost, hport⟩ := of_readAuthority hspecial ha
  have hlast : hostPort.getLast? = some c := by
    rcases hcs with rfl | ⟨user, rfl⟩
    · exact h
    · rw [List.getLast?_append_of_ne_nil _ (List.cons_ne_nil _ _)] at h
      cases hostPort with
      | nil =>
        cases h
        simp [isLow] at hc
      | cons d rest => rwa [List.getLast?_cons_cons] at h
  rw [← spanHost_append false hostPort] at hlast
  rcases spanHost_rest false hostPort with hrest | ⟨rest, hrest⟩
  · rw [hrest, List.append_nil] at hlast
    exact not_readHost_of_blank hc hlast _ hhost
  · rw [hrest, List.getLast?_append_of_ne_nil _ (List.cons_ne_nil _ _)] at hlast
    rw [hrest] at hport
    exact not_readPort_of_blank hc hlast _ hport

/-! ## Where the authority ends -/

/-- The characters of an authority of the web. -/
def inAuthority (c : Char) : Bool := !isSlash c && c ≠ '?' && c ≠ '#'

theorem takeWhile_cutTail {scheme : String} (hspecial : isSpecial scheme = true) (cs : List Char) :
    (cutTail cs).1.takeWhile (!endsSegment (isSpecial scheme) ·) = cs.takeWhile inAuthority := by
  unfold cutTail
  simp only [Text.cut_fst, List.takeWhile_takeWhile, hspecial]
  congr 1
  funext c
  simp [inAuthority, endsSegment, isSlash, Bool.and_assoc]

theorem origin_of_readFromAuthority [HostNames] {scheme : String} (hspecial : isSpecial scheme = true)
    (cs : List Char) :
    (readFromAuthority scheme cs).map origin =
      (readAuthority scheme (cs.takeWhile inAuthority)).map
        fun a => (scheme, some a.host, a.port) := by
  rw [← takeWhile_cutTail hspecial]
  unfold readFromAuthority
  simp only [bind, Except.bind]
  cases readAuthority scheme _ <;> rfl

/-- What is cut off at the end of a URL of a service: slashes, and blanks that stood before them. -/
def IsTrail (cs : List Char) : Prop := ∀ c ∈ cs, isLow c = true ∨ c = '/'

theorem IsTrail.inAuthority {cs : List Char} (h : IsTrail cs) :
    ∀ c ∈ cs.takeWhile inAuthority, isLow c = true := by
  intro c hc
  rcases h c (List.takeWhile_subset _ hc) with hlow | rfl
  · exact hlow
  · have := List.mem_takeWhile_imp hc
    cases this

theorem readAuthority_of_readFromAuthority [HostNames] {scheme : String} {cs : List Char} {u : Url}
    (hspecial : isSpecial scheme = true) (h : readFromAuthority scheme cs = .ok u) :
    ∃ a, readAuthority scheme (cs.takeWhile inAuthority) = .ok a := by
  have horigin := origin_of_readFromAuthority hspecial cs
  rw [h] at horigin
  cases hread : readAuthority scheme (cs.takeWhile inAuthority) with
  | error e => simp [hread, Except.map] at horigin
  | ok a => exact ⟨a, rfl⟩

theorem readFromAuthority_of_trail [HostNames] {scheme : String} {cs trail : List Char} {u : Url}
    (hspecial : isSpecial scheme = true) (htrail : IsTrail trail)
    (h : readFromAuthority scheme (cs ++ trail) = .ok u) :
    ∃ u', readFromAuthority scheme cs = .ok u' ∧ u'.origin = u.origin := by
  have hsame : (cs ++ trail).takeWhile inAuthority = cs.takeWhile inAuthority := by
    obtain ⟨a, ha⟩ := readAuthority_of_readFromAuthority hspecial h
    rw [List.takeWhile_append] at ha ⊢
    split at ha
    · -- The authority may go on behind the text, but not with a blank.
      rename_i hlength
      rw [if_pos hlength, (List.takeWhile_prefix _).eq_of_length hlength]
      cases hlast : (trail.takeWhile inAuthority).getLast? with
      | none => rw [List.getLast?_eq_none_iff.mp hlast, List.append_nil]
      | some c =>
        have hne : trail.takeWhile inAuthority ≠ [] := by
          intro hnil
          simp [hnil] at hlast
        have hc := htrail.inAuthority c (List.mem_of_getLast? hlast)
        rw [← List.getLast?_append_of_ne_nil cs hne] at hlast
        exact absurd ha (not_readAuthority_of_blank hspecial hc hlast a)
    · rename_i hlength
      rw [if_neg hlength]
  have horigin := origin_of_readFromAuthority hspecial (cs ++ trail)
  rw [hsame, ← origin_of_readFromAuthority hspecial, h] at horigin
  cases hcs : readFromAuthority scheme cs with
  | error e => simp [hcs, Except.map] at horigin
  | ok u' =>
    simp only [hcs, Except.map, Except.ok.injEq] at horigin
    exact ⟨u', rfl, horigin.symm⟩

/-! ## Where the scheme ends -/

theorem readWithScheme_of_trail [HostNames] {scheme : String} {cs trail : List Char} {u : Url}
    (hscheme : scheme = "http" ∨ scheme = "https") (htrail : IsTrail trail)
    (h : readWithScheme none scheme (cs ++ trail) = .ok u) :
    ∃ u', readWithScheme none scheme cs = .ok u' ∧ u'.origin = u.origin := by
  have hspecial : isSpecial scheme = true ∧ scheme ≠ "file" := by
    rcases hscheme with rfl | rfl <;> decide
  have hread (cs : List Char) :
      readWithScheme none scheme cs = readFromAuthority scheme (cs.dropWhile isSlash) := by
    unfold readWithScheme
    rw [if_neg hspecial.2, if_pos hspecial.1]
    simp only [Option.filter_none]
    have hspan := List.takeWhile_append_dropWhile (p := isSlash) (l := cs)
    rw [(congrArg (List.drop (cs.takeWhile isSlash).length) hspan.symm).trans List.drop_left]
  rw [hread, List.dropWhile_append] at h
  rw [hread]
  split at h
  · rename_i hnil
    rw [List.isEmpty_iff.mp hnil]
    exact readFromAuthority_of_trail hspecial.1
      (fun c hc => htrail c (List.dropWhile_subset _ hc)) h
  · exact readFromAuthority_of_trail hspecial.1 htrail h

theorem cutScheme?_of_trail {cs trail rest : List Char} {scheme : String} (htrail : IsTrail trail)
    (h : cutScheme? (cs ++ trail) = some (scheme, rest)) :
    ∃ rest', cutScheme? cs = some (scheme, rest') ∧ rest = rest' ++ trail := by
  have hmark : ∀ c ∈ trail, c ≠ ':' := by
    rintro c hc rfl
    rcases htrail _ hc with h | h <;> simp [isLow] at h
  unfold cutScheme? at h ⊢
  rw [List.dropWhile_append] at h
  cases hdrop : cs.dropWhile isSchemeChar with
  | nil =>
    -- The colon would be in the trail.
    simp only [hdrop, List.isEmpty_nil, if_true] at h
    split at h
    · rename_i hcolon
      have hmem : ':' ∈ trail.dropWhile isSchemeChar := by simp [hcolon]
      exact absurd rfl (hmark _ (List.dropWhile_subset _ hmem))
    · cases h
  | cons d ds =>
    have hne : cs ≠ [] := by
      rintro rfl
      simp at hdrop
    have hlength : (cs.takeWhile isSchemeChar).length ≠ cs.length := by
      intro hlength
      have hspan := congrArg List.length
        (List.takeWhile_append_dropWhile (p := isSchemeChar) (l := cs))
      simp only [hdrop, List.length_append, List.length_cons] at hspan
      omega
    rw [List.takeWhile_append, if_neg hlength, List.head?_append_of_ne_nil _ hne] at h
    simp only [hdrop, List.isEmpty_cons, Bool.false_eq_true, if_false, List.cons_append] at h
    split at h
    · rename_i hcolon
      cases hcolon
      split at h
      · rename_i halpha
        cases h
        exact ⟨ds, by simp [halpha], rfl⟩
      · cases h
    · cases h

/-! ## The ends of a text -/

theorem IsTrail.mono {cs ds : List Char} (h : IsTrail cs) (hds : ds ⊆ cs) : IsTrail ds :=
  fun c hc => h c (hds hc)

theorem IsTrail.append {cs ds : List Char} (hcs : IsTrail cs) (hds : IsTrail ds) :
    IsTrail (cs ++ ds) := by
  intro c hc
  rcases List.mem_append.mp hc with hc | hc
  · exact hcs c hc
  · exact hds c hc

/-- The characters without the blanks at the end. -/
def withoutLow (cs : List Char) : List Char := (cs.reverse.dropWhile isLow).reverse

theorem withoutLow_subset (cs : List Char) : withoutLow cs ⊆ cs :=
  fun _ hc => List.mem_reverse.mp (List.dropWhile_subset _ (List.mem_reverse.mp hc))

theorem withoutLow_append (cs trail : List Char) :
    withoutLow (cs ++ trail) =
      if withoutLow trail = [] then withoutLow cs else cs ++ withoutLow trail := by
  unfold withoutLow
  rw [List.reverse_append, List.dropWhile_append]
  cases h : trail.reverse.dropWhile isLow <;> simp

theorem withoutLow_trail (cs : List Char) : ∃ trail, IsTrail trail ∧ cs = withoutLow cs ++ trail := by
  refine ⟨(cs.reverse.takeWhile isLow).reverse, ?_, ?_⟩
  · intro c hc
    exact .inl (List.mem_takeWhile_imp (List.mem_reverse.mp hc))
  · unfold withoutLow
    rw [← List.reverse_append, List.takeWhile_append_dropWhile, List.reverse_reverse]

theorem cleaned_eq (s : String) :
    cleaned s = (withoutLow (s.toList.dropWhile isLow)).filter
      fun c => c ≠ '\t' && c ≠ '\n' && c ≠ '\r' := rfl

theorem cleaned_of_trail {s t : String} {cs : List Char} (ht : t.toList = s.toList ++ cs)
    (hcs : IsTrail cs) : ∃ trail, IsTrail trail ∧ cleaned t = cleaned s ++ trail := by
  suffices h : ∃ trail, IsTrail trail ∧ withoutLow (t.toList.dropWhile isLow) =
      withoutLow (s.toList.dropWhile isLow) ++ trail by
    obtain ⟨trail, htrail, h⟩ := h
    rw [cleaned_eq, cleaned_eq, h, List.filter_append]
    exact ⟨_, htrail.mono (List.filter_subset_self _), rfl⟩
  rw [ht, List.dropWhile_append]
  cases hs : s.toList.dropWhile isLow with
  | nil =>
    rw [List.isEmpty_nil, if_pos rfl]
    have hsubset : withoutLow (cs.dropWhile isLow) ⊆ cs :=
      fun c hc => List.dropWhile_subset _ (withoutLow_subset _ hc)
    exact ⟨_, hcs.mono hsubset, rfl⟩
  | cons d ds =>
    rw [List.isEmpty_cons, if_neg Bool.false_ne_true, withoutLow_append]
    split
    · exact ⟨[], by simp [IsTrail], by simp⟩
    · obtain ⟨trail, htrail, heq⟩ := withoutLow_trail (d :: ds)
      refine ⟨trail ++ withoutLow cs, htrail.append (hcs.mono (withoutLow_subset _)), ?_⟩
      rw [← List.append_assoc, ← heq]

/-- Without the slashes at its end a URL of the web has the same scheme, host and port. -/
theorem origin_of_slashes [HostNames] {s t : String} {cs : List Char} {u : Url}
    (ht : t.toList = s.toList ++ cs) (hcs : IsTrail cs) (h : parse t = .ok u)
    (hscheme : u.scheme = "http" ∨ u.scheme = "https") :
    ∃ u', parse s = .ok u' ∧ u'.origin = u.origin := by
  obtain ⟨trail, htrail, hclean⟩ := cleaned_of_trail ht hcs
  unfold parse read at h ⊢
  simp only [hclean] at h ⊢
  split at h
  · rename_i scheme rest hcut
    obtain ⟨rest', hcut', rfl⟩ := cutScheme?_of_trail htrail hcut
    rw [(of_readWithScheme h).1] at hscheme
    simp only [hcut']
    exact readWithScheme_of_trail hscheme htrail h
  · cases h

end Cadence.Url
