import Cadence.Proofs.Http.Respond
import Cadence.Proofs.Token.RoundTrip

/-!
# Access to the jobs

Whoever reads or changes a job brings the access token of an administrator: all requests that come
from anybody else end before their course depends on the store.
-/

namespace Cadence.Http

variable {s : Service} {a : Arrival} {r : Request}

/-! ## Places -/

theorem path_of_guarded {docs : Bool} {path : String} {g : GuardedEndpoint}
    (h : Endpoint.ofPath? docs path = some (.guarded g)) :
    (path, g) ∈ [("/api/cron/run", .run), ("/api/cron/jobs", .jobs), ("/api/cron/seed", .seed),
      ("/api/policy/diagnose", .diagnose)] := by
  unfold Endpoint.ofPath? at h
  split at h
  case h_9 =>
    -- The places of the description are open.
    split at h
    · obtain ⟨o, -, ho⟩ := Option.map_eq_some_iff.mp h
      cases ho
    · cases h
  all_goals
    cases h
    try simp

/-! ## Callers -/

theorem eq_append_of_dropPrefix? {start cs rest : List Char}
    (h : Text.dropPrefix? start cs = some rest) : cs = start ++ rest := by
  unfold Text.dropPrefix? at h
  split at h
  · rename_i hprefix
    obtain ⟨tail, rfl⟩ := List.isPrefixOf_iff_prefix.mp hprefix
    cases h
    rw [List.drop_left]
  · cases h

theorem dropPrefix?_append (start rest : List Char) :
    Text.dropPrefix? start (start ++ rest) = some rest := by
  unfold Text.dropPrefix?
  rw [if_pos (List.isPrefixOf_iff_prefix.mpr (List.prefix_append start rest)), List.drop_left]

theorem authenticate_eq_ok {caller : Principal} (h : authenticate s a r = .ok caller) :
    ∃ token claims, r.headers.lookup "authorization" = some ("Bearer " ++ token) ∧
      Token.validate a.now.unixSeconds s.tokens.secret (some .access) token = .ok claims ∧
      claims.principal = caller := by
  unfold authenticate at h
  split at h
  · cases h
  · rename_i v hv
    split at h
    · cases h
    · rename_i token htoken
      split at h
      · rename_i claims hclaims
        cases h
        have hvalue : v.toList = ("Bearer " ++ String.ofList token).toList := by
          rw [String.toList_append, eq_append_of_dropPrefix? htoken]
          exact congrArg _ String.toList_ofList.symm
        refine ⟨String.ofList token, claims, ?_, hclaims, rfl⟩
        rw [← String.toList_inj.mp hvalue]
        exact (Option.filter_eq_some_iff.mp hv).1
      · cases h

theorem authenticate_bearer {token : String} (hvisible : ∀ c ∈ token.toList, isVisible c = true)
    (hheader : r.headers.lookup "authorization" = some ("Bearer " ++ token)) :
    authenticate s a r =
      ((Token.validate a.now.unixSeconds s.tokens.secret (some .access) token).mapError
        Token.Fault.toError).map (·.principal) := by
  have hseen : visible? r.headers "authorization" = some ("Bearer " ++ token) := by
    unfold visible?
    rw [hheader, Option.filter_some, if_pos]
    rw [String.toList_append, List.all_append, Bool.and_eq_true]
    exact ⟨by decide, List.all_eq_true.mpr hvisible⟩
  unfold authenticate
  rw [hseen]
  simp only [String.toList_append, dropPrefix?_append, String.ofList_toList]
  cases Token.validate a.now.unixSeconds s.tokens.secret (some .access) token <;> rfl

/-- The visible characters of ASCII without the blank and the tab. -/
def IsGraphic (c : Char) : Prop := 33 ≤ c.toNat ∧ c.toNat ≤ 126

instance (c : Char) : Decidable (IsGraphic c) :=
  inferInstanceAs (Decidable (33 ≤ c.toNat ∧ c.toNat ≤ 126))

theorem IsGraphic.isVisible {c : Char} (h : IsGraphic c) : isVisible c = true := by
  unfold Http.isVisible
  rw [Bool.or_eq_true, Bool.and_eq_true, decide_eq_true_eq, decide_eq_true_eq, decide_eq_true_eq]
  exact .inr ⟨(Nat.le_succ 32).trans h.1, h.2⟩

theorem isGraphic_of_isTokenChar {c : Char} (h : Token.IsTokenChar c) : IsGraphic c :=
  ⟨h.bounds.1, h.bounds.2.1⟩

theorem isVisible_of_isTokenChar {c : Char} (h : Token.IsTokenChar c) : isVisible c = true :=
  (isGraphic_of_isTokenChar h).isVisible

theorem authorize_cronAdmin (caller : Principal) :
    Policy.authorize caller .cronAdmin = .ok () ↔ caller.role.isAdmin = true := by
  unfold Policy.authorize Policy.evaluate Policy.diagnose Policy.adminRules Policy.walk
    Policy.Rule.verdict?
  cases caller.role.isAdmin <;> simp

/-! ## Requests -/

/-- The request asks for a place where the jobs are, with the token of an administrator. -/
structure ByAdmin (s : Service) (a : Arrival) (r : Request) : Prop where
  place : r.path ∈ ["/api/cron/run", "/api/cron/jobs", "/api/cron/seed"]
  token : ∃ token claims, r.headers.lookup "authorization" = some ("Bearer " ++ token) ∧
    Token.validate a.now.unixSeconds s.tokens.secret (some .access) token = .ok claims ∧
    claims.kind = .access ∧ a.now.unixSeconds - Token.leeway ≤ claims.expiresAt ∧
    claims.principal.role ∈ [.admin, .superadmin]

theorem asAdmin_cases (caller : Principal) (work : StoreScript Reply) :
    (asAdmin caller work).HasEnded ∨ caller.role.isAdmin = true := by
  unfold asAdmin
  cases h : Policy.authorize caller .cronAdmin with
  | error e => exact .inl trivial
  | ok => exact .inr ((authorize_cronAdmin caller).mp h)

theorem guardedReply_cases (s : Service) (a : Arrival) (r : Request) (caller : Principal)
    (g : GuardedEndpoint) :
    (guardedReply s a r caller g).HasEnded ∨
      caller.role.isAdmin = true ∧ g ∈ [.run, .jobs, .seed] := by
  cases g with
  | run => exact (asAdmin_cases caller _).imp_right fun h => ⟨h, by decide⟩
  | jobs => exact (asAdmin_cases caller _).imp_right fun h => ⟨h, by decide⟩
  | seed => exact (asAdmin_cases caller _).imp_right fun h => ⟨h, by decide⟩
  | diagnose => exact .inl trivial

theorem hasEnded_refresh (s : Service) (a : Arrival) (r : Request) :
    (refresh s a r).HasEnded := by
  unfold refresh
  split
  · exact trivial
  · exact (StoreScript.hasEnded_ofOption _).bind fun _ => trivial

theorem hasEnded_openReply (s : Service) (a : Arrival) (r : Request) (o : OpenEndpoint) :
    (openReply s a r o).HasEnded := by
  unfold openReply
  split
  case h_4 => exact hasEnded_refresh s a r
  case h_7 => split <;> exact trivial
  all_goals exact trivial

/-- The reply of a place does without the store, or the request comes from an administrator. -/
theorem replyOf_cases {e : Endpoint} (hplace : Endpoint.ofPath? s.docs r.path = some e) :
    (replyOf s a r e).HasEnded ∨ ByAdmin s a r := by
  cases e with
  | toAll o =>
    left
    unfold replyOf
    simp only
    split
    · exact hasEnded_openReply s a r o
    · exact trivial
  | guarded g =>
    unfold replyOf
    cases hcaller : authenticate s a r with
    | error fault => exact .inl trivial
    | ok caller =>
      simp only
      split
      · refine (guardedReply_cases s a r caller g).imp_right fun ⟨hadmin, hjobs⟩ => ?_
        obtain ⟨token, claims, hheader, hvalid, rfl⟩ := authenticate_eq_ok hcaller
        obtain ⟨-, -, hlasts, hkind⟩ := Token.validate_eq_ok hvalid
        refine ⟨?_, token, claims, hheader, hvalid, hkind _ rfl, hlasts, ?_⟩
        · have := path_of_guarded hplace
          grind
        · revert hadmin
          cases claims.principal.role <;> decide
      · exact .inl trivial

theorem respond_cases (s : Service) (a : Arrival) (r : Request) :
    (respond s a r).HasEnded ∨ ByAdmin s a r := by
  by_cases hmethod : r.method = "OPTIONS"
  · left
    unfold respond
    rw [if_pos hmethod]
    exact trivial
  cases hplace : Endpoint.ofPath? s.docs r.path with
  | none =>
    left
    unfold respond
    rw [if_neg hmethod, hplace]
    exact trivial
  | some e =>
    rw [respond_of_place hplace hmethod]
    exact (replyOf_cases hplace).imp_left fun h => h.bind fun _ => trivial

/-- Whatever a request changes of the jobs, and whatever its response tells of them, or the lack of
one, it has brought an access token that holds and says that its bearer is an administrator. -/
theorem jobs_need_admin_token {moments : Nat → Moment} {n : Nat} {store : JobStore}
    (h : ((respond s a r).run moments n store).2 ≠ store ∨
      ∃ moments' n' store', ((respond s a r).run moments' n' store').1 ≠
        ((respond s a r).run moments n store).1) :
    r.path ∈ ["/api/cron/run", "/api/cron/jobs", "/api/cron/seed"] ∧
      ∃ token claims, r.headers.lookup "authorization" = some ("Bearer " ++ token) ∧
        Token.validate a.now.unixSeconds s.tokens.secret (some .access) token = .ok claims ∧
        claims.kind = .access ∧ a.now.unixSeconds - Token.leeway ≤ claims.expiresAt ∧
        claims.principal.role ∈ [.admin, .superadmin] := by
  rcases respond_cases s a r with hended | hadmin
  · simp only [hended.run_eq] at h
    rcases h with hstore | ⟨moments', n', store', hresponse⟩
    · exact absurd rfl hstore
    · exact absurd rfl hresponse
  · exact ⟨hadmin.place, hadmin.token⟩

theorem admin_token_seeds_store :
    let p : Principal := ⟨"ann", .admin, none, none, none⟩
    let s : Service := ⟨⟨"secret", 1, 168⟩, 100, true, fun _ => none, .plain⟩
    let a : Arrival := ⟨.epoch, "id", 0⟩
    let token := Token.sign "secret" ⟨p, .access, 0, 3600⟩
    let r : Request := ⟨"POST", "/api/cron/seed", [("authorization", "Bearer " ++ token)], ""⟩
    ((respond s a r).run (fun _ => ⟨.epoch, fun _ => none⟩) 0 .empty).2 ≠ .empty ∧
      r.path ∈ ["/api/cron/run", "/api/cron/jobs", "/api/cron/seed"] := by
  intro p s a token r
  have hcaller : authenticate s a r = .ok p := by
    have hcarries := Token.carries_sign "secret" (c := ⟨p, .access, 0, 3600⟩)
      ⟨by decide, by decide⟩
    have hvisible : ∀ c ∈ token.toList, isVisible c = true := fun c hc =>
      isVisible_of_isTokenChar (Token.isTokenChar_of_mem_sign hc)
    rw [authenticate_bearer hvisible rfl,
      hcarries.accepted (by decide) (by decide) _ (by decide)]
    rfl
  have hposts : Posts s r (.guarded .seed) := ⟨rfl, by decide, rfl⟩
  have hstore : ((respond s a r).run (fun _ => ⟨.epoch, fun _ => none⟩) 0 .empty).2 ≠ .empty := by
    rw [respond_run hposts.place (by decide), hposts.replyOf_eq hcaller]
    intro h
    have hrows := congrArg (fun store => store.rows.isEmpty) h
    revert hrows
    decide
  exact ⟨hstore, (jobs_need_admin_token (.inl hstore)).1⟩

end Cadence.Http
