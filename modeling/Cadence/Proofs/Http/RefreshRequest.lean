import Cadence.Http.Body
import Cadence.Proofs.Token.Validation
import Mathlib.Tactic.SplitIfs

/-!
# Requests for new tokens

A refresh token travels in a body of its own, which is read back unless it is longer than a body may
be.
-/

namespace Cadence.Http

/-! ## The body -/

/-- The body that brings a refresh token. -/
def tokenBody (token : String) : Json := .obj [("refresh_token", .str token)]

/-- The characters that stand in a JSON string as they are, one byte each. -/
def IsPlain (c : Char) : Prop := 32 ≤ c.toNat ∧ c.toNat ≤ 127 ∧ c ≠ '"' ∧ c ≠ '\\'

theorem isPlain_of_isTokenChar {c : Char} (h : Token.IsTokenChar c) : IsPlain c :=
  ⟨by have := h.bounds.1; omega, by have := h.bounds.2.1; omega, h.bounds.2.2⟩

theorem escapeChar_of_plain {c : Char} (h : IsPlain c) : Json.escapeChar c = [c] := by
  have hcontrol : ∀ d ∈ ['\n', '\r', '\t', '\x08', '\x0c'], c ≠ d := by
    have hsmall : ∀ d ∈ ['\n', '\r', '\t', '\x08', '\x0c'], d.toNat < 32 :=
      Text.forall_mem_of_all (by decide)
    rintro d hd rfl
    exact absurd h.1 (Nat.not_le.mpr (hsmall c hd))
  simp only [List.forall_mem_cons, List.not_mem_nil, false_implies, implies_true, and_true]
    at hcontrol
  unfold Json.escapeChar
  rw [if_neg h.2.2.1, if_neg h.2.2.2, if_neg hcontrol.1, if_neg hcontrol.2.1, if_neg hcontrol.2.2.1,
    if_neg hcontrol.2.2.2.1, if_neg hcontrol.2.2.2.2, if_neg (Nat.not_lt.mpr h.1)]

theorem flatMap_escapeChar_of_plain {cs : List Char} (h : ∀ c ∈ cs, IsPlain c) :
    cs.flatMap Json.escapeChar = cs := by
  induction cs with
  | nil => rfl
  | cons c cs ih =>
    rw [List.forall_mem_cons] at h
    rw [List.flatMap_cons, escapeChar_of_plain h.1, ih h.2]
    rfl

theorem write_tokenBody {token : String} (h : ∀ c ∈ token.toList, IsPlain c) :
    (tokenBody token).write =
      '\x7b' :: Json.quoted "refresh_token" ++ [':', '"'] ++ token.toList ++ ['"', '\x7d'] := by
  unfold tokenBody
  simp only [Json.write, Json.writeMembers]
  rw [Json.quoted.eq_def token, flatMap_escapeChar_of_plain h]
  simp

theorem utf8ByteSize_tokenBody {token : String} (h : ∀ c ∈ token.toList, IsPlain c) :
    (tokenBody token).text.utf8ByteSize = token.toList.length + 20 := by
  have hframe : ∀ c ∈ '\x7b' :: Json.quoted "refresh_token" ++ [':', '"', '\x7d'],
      c.toNat ≤ 127 := Text.forall_mem_of_all (by decide)
  unfold Json.text
  rw [write_tokenBody h, Text.utf8ByteSize_of_ascii]
  · simp only [List.length_append, List.length_cons, List.length_nil]
    have hname : (Json.quoted "refresh_token").length = 15 := by decide
    omega
  · intro c hc
    simp only [List.mem_append, List.mem_cons, List.not_mem_nil, or_false] at hc hframe
    rcases hc with (((hc | hc) | hc) | hc) | hc
    all_goals grind [IsPlain]

/-! ## Reading it -/

variable {r : Request} {token : String}

/-- The request brings a body in JSON with a refresh token. -/
structure BringsToken (r : Request) (token : String) : Prop where
  type : r.headers.lookup "content-type" = some jsonType
  body : r.body = (tokenBody token).text

theorem BringsToken.isJson (h : BringsToken r token) :
    ((visible? r.headers "content-type").bind MediaType.read?).any MediaType.isJson = true := by
  unfold visible?
  rw [h.type]
  decide

theorem refreshTokenOf_of_oversized (h : BringsToken r token)
    (hsize : maxBody < (tokenBody token).text.utf8ByteSize) :
    refreshTokenOf r = .error (.badRequest "Failed to buffer the request body") := by
  unfold refreshTokenOf readBody
  simp only [h.isJson, h.body, Bool.not_true, Bool.false_eq_true, if_false, if_pos hsize]
  rfl

open Json in
theorem refreshTokenOf_tokenBody (h : BringsToken r token)
    (hsize : (tokenBody token).text.utf8ByteSize ≤ maxBody) (hne : token ≠ "") :
    refreshTokenOf r = .ok token := by
  have hsuits : ∀ m ∈ [("refresh_token", str token)], Suits [.text "refresh_token"] m := by
    simp only [List.forall_mem_cons, List.not_mem_nil, false_implies, implies_true, and_true]
    exact FieldReader.reads_text _ _
  obtain ⟨members, hread, hlookup⟩ := readRecord_text hsuits (by simp)
  have htoken : members.lookup "refresh_token" = some (.str token) := hlookup _
  have hcomplete : complete [.text "refresh_token"] members = .ok members := by
    unfold complete
    simp [FieldReader.text, FieldSpec.required, htoken]
  have hrecord : readRecord [.text "refresh_token"] (tokenBody token).text = .ok members :=
    hread.trans hcomplete
  have hnonEmpty : nonEmpty members "refresh_token" "Refresh token cannot be empty" = .ok token := by
    unfold nonEmpty
    rw [htoken]
    split
    · rename_i heq
      cases heq
      exact absurd rfl hne
    · rename_i heq
      cases heq
    · rename_i v _ heq
      cases heq
      rfl
  unfold refreshTokenOf readBody
  simp only [h.isJson, h.body, Bool.not_true, Bool.false_eq_true, if_false,
    if_neg (Nat.not_lt.mpr hsize), hrecord]
  exact hnonEmpty

end Cadence.Http
