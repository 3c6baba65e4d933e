import Cadence.Proofs.Time.Elapsed
import Cadence.Proofs.Token.Validation

/-!
# Tokens that are issued

A token says who its bearer is for all time, and it is accepted for its own purpose as long as it
holds.
-/

namespace Cadence

theorem Instant.unixSeconds_inRange (t : Instant) :
    Text.i64Min ≤ t.unixSeconds ∧ t.unixSeconds ≤ Text.i64Max := by
  have hlow := t.day_ge
  have hhigh := t.day_le
  have hsecond := t.second_lt
  unfold Instant.unixSeconds Text.i64Min Text.i64Max
  unfold firstDay at hlow
  unfold lastDay at hhigh
  omega

namespace Token

variable {p : Principal} {kind : TokenKind} {secret token : String} {hours : Int} {now : Instant}

theorem length_signature (secret : String) (message : List Char) :
    (signature secret message).length = 32 := rfl

theorem length_sign (secret : String) (c : Claims) :
    (sign secret c).toList.length = (c.toJson.text.utf8ByteSize * 4 + 2) / 3 + 81 := by
  have hheader : (encodeText header.text).length = 36 := by
    unfold encodeText
    rw [Base64.length_encode, Text.length_toUTF8]
    decide
  unfold sign
  simp only [String.toList_ofList, List.length_append, List.length_cons, hheader]
  unfold encodeText
  rw [Base64.length_encode, Base64.length_encode, length_signature, Text.length_toUTF8]
  omega

theorem length_le_flatMap_escapeChar (cs : List Char) :
    cs.length ≤ (cs.flatMap Json.escapeChar).length := by
  have hpos (c : Char) : 0 < (Json.escapeChar c).length := by
    unfold Json.escapeChar
    split_ifs <;> exact Nat.succ_pos _
  induction cs with
  | nil => exact Nat.zero_le _
  | cons c cs ih =>
    have hc := hpos c
    rw [List.flatMap_cons, List.length_append, List.length_cons]
    omega

theorem length_userId_le_sign (secret : String) (c : Claims) :
    c.principal.userId.toList.length ≤ (sign secret c).toList.length := by
  have hid := length_le_flatMap_escapeChar c.principal.userId.toList
  have hwrite : c.principal.userId.toList.length ≤ c.toJson.write.length := by
    -- The user id is the first of the claims.
    obtain ⟨rest, hrest⟩ : ∃ rest, c.toJson.write =
      '\x7b' :: Json.quoted "sub" ++ ':' :: Json.quoted c.principal.userId ++ rest := ⟨_, rfl⟩
    rw [hrest]
    simp only [Json.quoted, List.length_append, List.length_cons]
    omega
  have htext : c.toJson.write.length ≤ c.toJson.text.utf8ByteSize := Text.length_le_utf8ByteSize _
  rw [length_sign]
  omega

/-- A token of a principal for a purpose that is accepted up to a time: at any time, without an
expected kind or with its own it is accepted or has expired, and never with the other one. -/
structure Carries (secret token : String) (p : Principal) (kind : TokenKind) (issued expiry : Int) :
    Prop where
  /-- whenever it is accepted, these are its claims -/
  claims : ∀ {now expected found}, validate now secret expected token = .ok found →
    found = ⟨p, kind, issued, expiry⟩
  /-- while it lasts it is accepted for its own purpose, and where the purpose is left open -/
  accepted : 0 ≤ expiry → ∀ {now}, now - leeway ≤ expiry →
    ∀ expected ∈ [none, some kind],
      validate now secret expected token = .ok ⟨p, kind, issued, expiry⟩
  /-- it is never accepted for the other purpose -/
  refused : ∀ {now other}, other ≠ kind →
    ∃ f, validate now secret (some other) token = .error f

theorem carries_sign (secret : String) {c : Claims} (h : c.InRange) :
    Carries secret (sign secret c) c.principal c.kind c.issuedAt c.expiresAt where
  claims := by
    intro now expected found hfound
    rw [validate_sign now secret expected h] at hfound
    exact (judge_eq_ok hfound).1
  accepted := by
    intro hnonneg now hlasts expected hexpected
    rw [validate_sign now secret expected h]
    unfold judge
    rw [if_neg (by omega), if_neg (by omega), if_neg Bool.false_ne_true]
    simp only [List.mem_cons, List.not_mem_nil, or_false] at hexpected
    rcases hexpected with rfl | rfl
    · rfl
    · exact if_pos rfl
  refused := by
    intro now other hother
    cases hvalidate : validate now secret (some other) (sign secret c) with
    | error f => exact ⟨f, rfl⟩
    | ok found =>
      rw [validate_sign now secret _ h] at hvalidate
      exact absurd ((judge_eq_ok hvalidate).2.2.2 other rfl).symm hother

/-! ## Issuing -/

theorem issue?_of_expiry (p : Principal) (kind : TokenKind) (secret : String) {expiry : Instant}
    (h : now.addSeconds? (hours * 3600) = some expiry) :
    issue? p kind secret hours now =
      some (sign secret ⟨p, kind, now.unixSeconds, expiry.unixSeconds⟩) := by
  unfold issue? claims?
  rw [h]
  rfl

theorem carries_of_issue? (h : issue? p kind secret hours now = some token) :
    ∃ expiry : Instant, now.addSeconds? (hours * 3600) = some expiry ∧
      token = sign secret ⟨p, kind, now.unixSeconds, expiry.unixSeconds⟩ ∧
      Carries secret token p kind now.unixSeconds expiry.unixSeconds := by
  obtain ⟨claims, hclaims, rfl⟩ := Option.map_eq_some_iff.mp h
  obtain ⟨expiry, hexpiry, rfl⟩ := Option.map_eq_some_iff.mp hclaims
  exact ⟨expiry, hexpiry, rfl,
    carries_sign secret ⟨now.unixSeconds_inRange, expiry.unixSeconds_inRange⟩⟩

theorem issuePair?_eq_some {accessHours refreshHours : Int} {pair : Pair} :
    issuePair? p secret accessHours refreshHours now = some pair ↔
      issue? p .access secret accessHours now = some pair.access ∧
        issue? p .refresh secret refreshHours now = some pair.refresh := by
  obtain ⟨access, refresh⟩ := pair
  unfold issuePair?
  simp only [Option.bind_eq_bind, Option.bind_eq_some_iff, Option.pure_def, Option.some.injEq,
    Pair.mk.injEq]
  constructor
  · rintro ⟨_, haccess, _, hrefresh, rfl, rfl⟩
    exact ⟨haccess, hrefresh⟩
  · rintro ⟨haccess, hrefresh⟩
    exact ⟨_, haccess, _, hrefresh, rfl, rfl⟩

theorem issuePair?_of_expiry (p : Principal) (secret : String) {accessHours refreshHours : Int}
    {accessExpiry refreshExpiry : Instant}
    (haccess : now.addSeconds? (accessHours * 3600) = some accessExpiry)
    (hrefresh : now.addSeconds? (refreshHours * 3600) = some refreshExpiry) :
    issuePair? p secret accessHours refreshHours now =
      some ⟨sign secret ⟨p, .access, now.unixSeconds, accessExpiry.unixSeconds⟩,
        sign secret ⟨p, .refresh, now.unixSeconds, refreshExpiry.unixSeconds⟩⟩ :=
  issuePair?_eq_some.mpr
    ⟨issue?_of_expiry p .access secret haccess, issue?_of_expiry p .refresh secret hrefresh⟩

end Token

end Cadence
