import Cadence.Proofs.Json.Record
import Cadence.Proofs.Text.Split
import Cadence.Proofs.Token.Base64

/-!
# Validation of tokens

What a token says depends on its text and the secret alone; the time and the expected kind decide
whether it is accepted.
-/

namespace Cadence

/-! ## Names -/

theorem Role.ofName?_name (r : Role) : ofName? r.name = some r := by cases r <;> rfl

theorem EmployeeRole.ofName?_name (r : EmployeeRole) : ofName? r.name = some r := by cases r <;> rfl

theorem Tier.ofName?_name (t : Tier) : ofName? t.name = some t := by cases t <;> rfl

theorem TokenKind.ofName?_name (k : TokenKind) : ofName? k.name = some k := by cases k <;> rfl

/-! ## Claims -/

namespace Claims

/-- Times have 64 bits. -/
def InRange (c : Claims) : Prop :=
  (Text.i64Min ≤ c.issuedAt ∧ c.issuedAt ≤ Text.i64Max) ∧
    Text.i64Min ≤ c.expiresAt ∧ c.expiresAt ≤ Text.i64Max

/-- The members of claims, those without a value included. -/
def members (c : Claims) : List (String × Option Json) :=
  [("sub", some (.str c.principal.userId)), ("role", some (.str c.principal.role.name)),
    ("tenant_id", c.principal.tenantId.map .str),
    ("tier", c.principal.tier.map fun t => .str t.name),
    ("employee_role", c.principal.employeeRole.map fun r => .str r.name),
    ("token_type", some (.str c.kind.name)), ("iat", some (.int c.issuedAt)),
    ("exp", some (.int c.expiresAt))]

theorem toJson_eq (c : Claims) : c.toJson = .obj (Json.present c.members) := rfl

theorem nodup_members (c : Claims) : (c.members.map (·.1)).Nodup := by
  change ["sub", "role", "tenant_id", "tier", "employee_role", "token_type", "iat", "exp"].Nodup
  decide

theorem value_of_mem_members {c : Claims} (h : c.InRange) {m : String × Option Json}
    (hm : m ∈ c.members) {v : Json} (hv : m.2 = some v) :
    (∃ s, v = .str s) ∨ ∃ n, v = .int n ∧ Text.i64Min ≤ n ∧ n ≤ Text.i64Max := by
  have htext {s : String} (hs : some (Json.str s) = some v) : ∃ s, v = .str s :=
    ⟨s, (Option.some.inj hs).symm⟩
  have hmapped {o : Option String} (ho : o.map Json.str = some v) : ∃ s, v = .str s := by
    obtain ⟨s, -, rfl⟩ := Option.map_eq_some_iff.mp ho
    exact ⟨s, rfl⟩
  simp only [members, List.mem_cons, List.not_mem_nil, or_false] at hm
  rcases hm with rfl | rfl | rfl | rfl | rfl | rfl | rfl | rfl
  · exact .inl (htext hv)
  · exact .inl (htext hv)
  · exact .inl (hmapped hv)
  · obtain ⟨t, -, rfl⟩ := Option.map_eq_some_iff.mp hv
    exact .inl ⟨t.name, rfl⟩
  · obtain ⟨r, -, rfl⟩ := Option.map_eq_some_iff.mp hv
    exact .inl ⟨r.name, rfl⟩
  · exact .inl (htext hv)
  · exact .inr ⟨c.issuedAt, (Option.some.inj hv).symm, h.1⟩
  · exact .inr ⟨c.expiresAt, (Option.some.inj hv).symm, h.2⟩

open Json in
theorem suits_members {c : Claims} (h : c.InRange) : ∀ m ∈ present c.members, Suits readers m := by
  have hreader : ∀ f ∈ readers, f = .optionalAny f.name := by
    intro f hf
    obtain ⟨name, -, rfl⟩ := List.mem_map.mp hf
    rfl
  intro m hm
  obtain ⟨⟨name, v?⟩, hmem, hm⟩ := List.mem_filterMap.mp hm
  obtain ⟨v, hv, rfl⟩ := Option.map_eq_some_iff.mp hm
  have hvalue : v.Fits (maxDepth - 1) ∧ v.Skips := by
    rcases value_of_mem_members h hmem hv with ⟨s, rfl⟩ | ⟨n, rfl, hlow, hhigh⟩
    · exact ⟨by unfold Fits; trivial, skips_str s⟩
    · have hwide : Text.i64Max ≤ Text.u64Max := by decide
      exact ⟨by unfold Fits; exact ⟨hlow, by omega⟩, skips_int n⟩
  unfold Suits
  split
  · rename_i f hf
    rw [hreader f (List.mem_of_find?_eq_some hf)]
    exact FieldReader.reads_optionalAny _ hvalue.1
  · exact hvalue.2

open Json in
theorem ofMembers?_members {c : Claims} (hrange : c.InRange) {ms : List (String × Json)}
    (h : ∀ name ∈ readers.map (·.name), ms.lookup name = (c.members.lookup name).join) :
    ofMembers? ms = some c := by
  have hsub : ms.lookup "sub" = some (.str c.principal.userId) := h _ (by decide)
  have hrole : ms.lookup "role" = some (.str c.principal.role.name) := h _ (by decide)
  have htenant : ms.lookup "tenant_id" = c.principal.tenantId.map .str := h _ (by decide)
  have htier : ms.lookup "tier" = c.principal.tier.map fun t => .str t.name := h _ (by decide)
  have hemployee : ms.lookup "employee_role" =
      c.principal.employeeRole.map fun r => .str r.name := h _ (by decide)
  have hkind : ms.lookup "token_type" = some (.str c.kind.name) := h _ (by decide)
  have hissued : ms.lookup "iat" = some (.int c.issuedAt) := h _ (by decide)
  have hexpires : ms.lookup "exp" = some (.int c.expiresAt) := h _ (by decide)
  unfold ofMembers?
  rw [required?_of_lookup hsub, required?_of_lookup hrole,
    optional?_of_lookup htenant (fun _ => rfl) (fun _ h => by cases h),
    optional?_of_lookup htier (fun t => t.ofName?_name) (fun _ h => by cases h),
    optional?_of_lookup hemployee (fun r => r.ofName?_name) (fun _ h => by cases h),
    required?_of_lookup hkind, required?_of_lookup hissued, required?_of_lookup hexpires,
    asI64?_int hrange.1, asI64?_int hrange.2]
  simp only [asStr?, asChoice?, Option.bind_some, Role.ofName?_name, TokenKind.ofName?_name,
    Option.bind_eq_bind, Option.pure_def]

open Json in
theorem read?_text {c : Claims} (h : c.InRange) : read? c.toJson.text = some (c, false) := by
  obtain ⟨ms, hread, hlookup⟩ := readRecord_text (suits_members h) (nodup_present c.nodup_members)
  have hcomplete : complete readers ms = .ok ms := if_pos rfl
  have hget : ∀ name ∈ readers.map (·.name), ms.lookup name = (c.members.lookup name).join := by
    intro name hname
    have hfield : isField readers name = true := by
      have hall : ∀ name ∈ readers.map (·.name), isField readers name = true := by decide
      exact hall name hname
    rw [hlookup, if_pos hfield, lookup_present c.nodup_members]
  have haudience : ms.lookup "aud" = none := hget _ (by decide)
  have hobject : (skipGaps (obj (present c.members)).text.toList).head? = some '\x7b' := by
    unfold text
    rw [String.toList_ofList]
    rfl
  unfold read?
  rw [toJson_eq, hobject, if_neg (by decide), hread, hcomplete]
  simp only [ofMembers?_members h hget, haudience, Option.map_some, Option.any_none]

end Claims

/-! ## What a token says -/

namespace Token

/-- What a token says, and whether it names an audience. -/
def content (secret token : String) : Except Fault (Claims × Bool) := do
  let (message, signed) ← orFault .invalid (Text.cutLast? '.' token.toList)
  let (head, payload) ← orFault .invalid (Text.cutLast? '.' message)
  let head ← orFault .encoding (Base64.decode? head)
  let algorithm ← orFault .json (((textOf? head).bind Json.read?).bind algorithm?)
  if algorithm ≠ "HS256" then throw .algorithm
  let signed ← orFault .encoding (Base64.decode? signed)
  if signed ≠ signature secret message then throw .signature
  let payload ← orFault .encoding (Base64.decode? payload)
  orFault .json ((textOf? payload).bind Claims.read?)

/-- What becomes of that at a time, where a token of some kind is expected. -/
def judge (now : Int) (expected : Option TokenKind) (claims : Claims) (hasAudience : Bool) :
    Except Fault Claims :=
  if claims.expiresAt < 0 then .error .missingExpiry
  else if claims.expiresAt < now - leeway then .error .expired
  else if hasAudience then .error .audience
  else match expected with
    | some kind => if claims.kind = kind then .ok claims else .error (.kind kind claims.kind)
    | none => .ok claims

theorem validate_eq (now : Int) (secret : String) (expected : Option TokenKind) (token : String) :
    validate now secret expected token =
      content secret token >>= fun (claims, hasAudience) =>
        judge now expected claims hasAudience := by
  unfold validate content
  simp only [bind_assoc]
  refine bind_congr fun (message, signed) => bind_congr fun (head, payload) =>
    bind_congr fun head => bind_congr fun algorithm => ?_
  by_cases halgorithm : algorithm ≠ "HS256"
  · rw [if_pos halgorithm, if_pos halgorithm]
    rfl
  rw [if_neg halgorithm, if_neg halgorithm, bind_assoc]
  refine bind_congr fun signed => ?_
  by_cases hsigned : signed ≠ signature secret message
  · rw [if_pos hsigned, if_pos hsigned]
    rfl
  rw [if_neg hsigned, if_neg hsigned, bind_assoc]
  refine bind_congr fun payload => bind_congr fun (claims, hasAudience) => ?_
  unfold judge
  split_ifs <;> rfl

theorem bind_eq_ok {ε α β : Type} {x : Except ε α} {f : α → Except ε β} {b : β} :
    x >>= f = .ok b ↔ ∃ a, x = .ok a ∧ f a = .ok b := by
  cases x <;> simp [bind, Except.bind]

theorem orFault_eq_ok {α : Type} {f : Fault} {o : Option α} {a : α} :
    orFault f o = .ok a ↔ o = some a := by
  cases o <;> simp [orFault]

/-- The characters of a token: those of its parts, and the dots between them. -/
def IsTokenChar (c : Char) : Prop := c = '.' ∨ ∃ n < 64, c = Base64.char n

theorem IsTokenChar.bounds {c : Char} (h : IsTokenChar c) :
    33 ≤ c.toNat ∧ c.toNat ≤ 126 ∧ c ≠ '"' ∧ c ≠ '\\' := by
  have hchars : ∀ n < 64, 33 ≤ (Base64.char n).toNat ∧ (Base64.char n).toNat ≤ 126 ∧
      Base64.char n ≠ '"' ∧ Base64.char n ≠ '\\' := by decide
  rcases h with rfl | ⟨n, hn, rfl⟩
  · decide
  · exact hchars n hn

theorem isTokenChar_of_content {secret token : String} {found : Claims × Bool}
    (h : content secret token = .ok found) : ∀ c ∈ token.toList, IsTokenChar c := by
  unfold content at h
  simp only [bind_eq_ok, orFault_eq_ok, Prod.exists] at h
  obtain ⟨message, signed, htoken, head, payload, hmessage, headBytes, hhead, algorithm, -, h⟩ := h
  split_ifs at h with halgorithm
  · cases h
  simp only [bind_eq_ok, orFault_eq_ok] at h
  obtain ⟨signedBytes, hsigned, h⟩ := h
  split_ifs at h with hsignature
  · cases h
  simp only [bind_eq_ok, orFault_eq_ok] at h
  obtain ⟨payloadBytes, hpayload, -⟩ := h
  intro c hc
  rw [Text.eq_of_cutLast? htoken, Text.eq_of_cutLast? hmessage] at hc
  simp only [List.mem_append, List.mem_cons] at hc
  rcases hc with (hc | hc | hc) | hc | hc
  · exact .inr (Base64.mem_of_decode? hhead hc)
  · exact .inl hc
  · exact .inr (Base64.mem_of_decode? hpayload hc)
  · exact .inl hc
  · exact .inr (Base64.mem_of_decode? hsigned hc)

theorem judge_eq_ok {now : Int} {expected : Option TokenKind} {claims found : Claims}
    {hasAudience : Bool} (h : judge now expected claims hasAudience = .ok found) :
    found = claims ∧ 0 ≤ claims.expiresAt ∧ now - leeway ≤ claims.expiresAt ∧
      ∀ kind, expected = some kind → claims.kind = kind := by
  unfold judge at h
  split_ifs at h with hnegative hexpired haudience
  cases expected with
  | none =>
    cases h
    exact ⟨rfl, by omega, by omega, fun _ hkind => by cases hkind⟩
  | some kind =>
    simp only at h
    split_ifs at h with hkind
    cases h
    exact ⟨rfl, by omega, by omega, fun _ hkind' => by cases hkind'; exact hkind⟩

theorem judge_other {now : Int} {claims : Claims} {kind : TokenKind} (hnonneg : 0 ≤ claims.expiresAt)
    (hlasts : now - leeway ≤ claims.expiresAt) (hkind : claims.kind ≠ kind) :
    judge now (some kind) claims false = .error (.kind kind claims.kind) := by
  unfold judge
  rw [if_neg (by omega), if_neg (by omega), if_neg Bool.false_ne_true]
  exact if_neg hkind

theorem validate_eq_ok {now : Int} {secret token : String} {expected : Option TokenKind}
    {claims : Claims} (h : validate now secret expected token = .ok claims) :
    (∃ hasAudience, content secret token = .ok (claims, hasAudience)) ∧ 0 ≤ claims.expiresAt ∧
      now - leeway ≤ claims.expiresAt ∧ ∀ kind, expected = some kind → claims.kind = kind := by
  rw [validate_eq] at h
  cases hcontent : content secret token with
  | error f =>
    rw [hcontent] at h
    cases h
  | ok found =>
    rw [hcontent] at h
    obtain ⟨rfl, hjudged⟩ := judge_eq_ok h
    exact ⟨⟨found.2, rfl⟩, hjudged⟩

/-- At all times and for all purposes, a token that is accepted has the same claims. -/
theorem claims_unique {now now' : Int} {secret token : String} {expected expected' : Option TokenKind}
    {claims claims' : Claims} (h : validate now secret expected token = .ok claims)
    (h' : validate now' secret expected' token = .ok claims') : claims' = claims := by
  obtain ⟨⟨hasAudience, hcontent⟩, -⟩ := validate_eq_ok h
  obtain ⟨⟨hasAudience', hcontent'⟩, -⟩ := validate_eq_ok h'
  rw [hcontent] at hcontent'
  cases hcontent'
  rfl

/-! ## Signed tokens -/

theorem header_read : (Json.read? header.text).bind algorithm? = some "HS256" := by
  have hfits : header.Fits Json.maxDepth := by
    unfold header Json.maxDepth Json.Fits
    intro m hm
    simp only [List.mem_cons, List.not_mem_nil, or_false] at hm
    rcases hm with rfl | rfl <;> (unfold Json.Fits; trivial)
  rw [Json.read?_text hfits]
  rfl

theorem content_sign (secret : String) {c : Claims} (h : c.InRange) :
    content secret (sign secret c) = .ok (c, false) := by
  unfold content sign encodeText
  simp only [String.toList_ofList, Text.cutLast?_append (Base64.dot_not_mem_encode _), orFault,
    Base64.decode?_encode, textOf?_toUTF8, Option.bind_some, header_read, Claims.read?_text h, bind,
    Except.bind, ne_eq, not_true_eq_false, if_false]

theorem isTokenChar_of_mem_sign {secret : String} {claims : Claims} {c : Char}
    (h : c ∈ (sign secret claims).toList) : IsTokenChar c := by
  unfold sign encodeText at h
  simp only [String.toList_ofList, List.mem_append, List.mem_cons] at h
  rcases h with (h | rfl | h) | rfl | h
  · exact .inr (Base64.mem_encode h)
  · exact .inl rfl
  · exact .inr (Base64.mem_encode h)
  · exact .inl rfl
  · exact .inr (Base64.mem_encode h)

theorem validate_sign (now : Int) (secret : String) (expected : Option TokenKind) {c : Claims}
    (h : c.InRange) : validate now secret expected (sign secret c) = judge now expected c false := by
  rw [validate_eq, content_sign secret h]
  rfl

end Token

end Cadence
