import Cadence.Proofs.Client.Protocol
import Cadence.Proofs.Url.Origin

/-!
# Where the token goes

All requests of a client go to the origin of its base, and its books are about paths of that origin,
as long as no path that it is asked for names an origin. A path that does takes the token there.
-/

namespace Cadence

open Backoff Contact

variable {σ : Type} {w : Surroundings σ} {c c' : BackoffClient} {s s' : σ}

namespace BackoffClient

/-- A request that the client is asked for. -/
structure Ask where
  method : String
  path : String
  body : Option Json

/-- The client after requests, one after the other, and its surroundings. -/
def session [HostNames] (w : Surroundings σ) (c : BackoffClient) : List Ask → σ → BackoffClient × σ
  | [], s => (c, s)
  | a :: rest, s =>
    let (_, c, s) := c.request w a.method a.path a.body s
    c.session w rest s

/-- All requests of a log go to an origin, and tell of all paths whose entries differ between two
books. -/
structure Stays (origin : String × Option Url.Host × Option Nat) (log : List Contact)
    (before after : BackoffState) : Prop where
  origin_eq : ∀ x ∈ sends log, x.1.origin = origin
  find?_eq : ∀ key, after.find? key ≠ before.find? key →
    ∃ x ∈ sends log, normalizePath x.1.path.text = key

theorem Stays.of_nil (origin : String × Option Url.Host × Option Nat) (b : BackoffState) :
    Stays origin [] b b where
  origin_eq x hx := by cases hx
  find?_eq key hne := absurd rfl hne

theorem Stays.append {origin : String × Option Url.Host × Option Nat} {log log' : List Contact}
    {b b' b'' : BackoffState} (h : Stays origin log b b') (h' : Stays origin log' b' b'') :
    Stays origin (log ++ log') b b'' where
  origin_eq := by
    intro x hx
    rw [sends_append, List.mem_append] at hx
    exact hx.elim (h.origin_eq x) (h'.origin_eq x)
  find?_eq := by
    intro key hne
    rw [sends_append]
    by_cases hsame : b'.find? key = b.find? key
    · obtain ⟨x, hx, hkey⟩ := h'.find?_eq key (hsame ▸ hne)
      exact ⟨x, List.mem_append_right _ hx, hkey⟩
    · obtain ⟨x, hx, hkey⟩ := h.find?_eq key hsame
      exact ⟨x, List.mem_append_left _ hx, hkey⟩

theorem Course.stays {method : String} {url : Url} {body : Option Json} {log : List Contact}
    {result : Except FetchError Http.Response} (h : Course w c method url body s log result c' s') :
    Stays url.origin log c.backoff c'.backoff where
  origin_eq := by
    intro x hx
    rw [h.sends_to hx]
  find?_eq := by
    intro key hne
    cases hcan : w.admits url (message c.accessToken method url body false) with
    | true =>
      obtain ⟨m, hfirst, -⟩ := h.proceeds.first hcan
      refine ⟨(url, m), List.mem_of_getElem? hfirst, ?_⟩
      by_contra hkey
      exact hne (h.proceeds.others_eq key (Ne.symm hkey))
    | false =>
      rw [(h.proceeds.unsendable hcan).2.2] at hne
      exact absurd rfl hne

variable [HostNames]

theorem request_stays {path : String} (hpath : c.baseUrl.namesOrigin path = false)
    (w : Surroundings σ) (method : String) (body : Option Json) (s : σ) :
    ∃ log result c' s', c'.baseUrl = c.baseUrl ∧
      Stays c.baseUrl.origin log c.backoff c'.backoff ∧
      ∀ before, c.request w.recorded method path body (s, before) =
        (result, c', s', before ++ log) := by
  obtain ⟨e, hnothing⟩ | ⟨url, log, result, c', s', hurl, hcourse, hwritten⟩ :=
    request_cases w c method path body s
  · exact ⟨[], .error e, c, s, rfl, .of_nil _ _, fun before => by rw [List.append_nil, hnothing]⟩
  · refine ⟨log, result, c', s', hcourse.baseUrl_eq, ?_, hwritten⟩
    rw [← Url.origin_of_join hpath hurl]
    exact hcourse.stays

theorem session_stays (w : Surroundings σ) {asks : List Ask}
    (hpaths : ∀ a ∈ asks, c.baseUrl.namesOrigin a.path = false) (s : σ) :
    ∃ log c' s', Stays c.baseUrl.origin log c.backoff c'.backoff ∧
      ∀ before, c.session w.recorded asks (s, before) = (c', s', before ++ log) := by
  induction asks generalizing c s with
  | nil => exact ⟨[], c, s, .of_nil _ _, fun before => by rw [List.append_nil]; rfl⟩
  | cons a rest ih =>
    rw [List.forall_mem_cons] at hpaths
    obtain ⟨log, result, c₁, s₁, hbase, hstays, hrequest⟩ :=
      request_stays hpaths.1 w a.method a.body s
    rw [← hbase] at hpaths
    obtain ⟨log', c₂, s₂, hstays', hrest⟩ := ih hpaths.2 s₁
    refine ⟨log ++ log', c₂, s₂, hstays.append (hbase ▸ hstays'), fun before => ?_⟩
    unfold session
    simp only [hrequest, hrest, List.append_assoc]

end BackoffClient

open BackoffClient

/-- A new client is asked for paths that name no origin. All that it sends, with its token, goes to
the origin of its base, and each entry of its books is for a path that it sent a request for. The
condition is no more than needed: a path that names an origin leads to the same place from every
base of the scheme, whatever its host and port. -/
theorem requests_stay_at_base_origin [HostNames] (w : Surroundings σ) {baseUrl : String}
    {config : BackoffSettings} {token : Option String}
    (hnew : BackoffClient.new baseUrl config token = .ok c) {asks : List Ask}
    (hpaths : ∀ a ∈ asks, c.baseUrl.namesOrigin a.path = false) (s : σ) :
    ∃ log c' s', c.session w.recorded asks (s, []) = (c', s', log) ∧
      (∀ x ∈ sends log, x.1.origin = c.baseUrl.origin) ∧
      (∀ key, (c'.backoff.find? key).isSome →
        ∃ x ∈ sends log, normalizePath x.1.path.text = key) ∧
      ∀ (path : String) (base : Url) (names names' : List String),
        c.baseUrl.namesOrigin path = true → base.scheme = c.baseUrl.scheme →
        c.baseUrl.path = .segments names → base.path = .segments names' →
        base.join path = c.baseUrl.join path := by
  obtain ⟨log, c', s', hstays, hsession⟩ := session_stays w hpaths s
  have hempty : c.backoff = .new config := by
    unfold BackoffClient.new at hnew
    cases hurl : urlOr Url.parse baseUrl with
    | error e => rw [hurl] at hnew; cases hnew
    | ok url => rw [hurl] at hnew; cases hnew; rfl
  refine ⟨log, c', s', hsession [], hstays.origin_eq, ?_, ?_⟩
  · intro key hsome
    apply hstays.find?_eq key
    rw [hempty, BackoffState.find?_new]
    exact Option.isSome_iff_ne_none.mp hsome
  · intro path base names names' hnames hscheme hpath hpath'
    exact Url.join_eq_of_namesOrigin hnames hscheme hpath hpath'

theorem requests_stay_at_origin_of_two_paths :
    let _ : HostNames := .plain
    let w := exampleSurroundings "new"
    let c : BackoffClient := ⟨exampleBase, .new {}, some "secret"⟩
    let asks : List Ask := [⟨"GET", "/a", none⟩, ⟨"POST", "b?n=1", none⟩]
    BackoffClient.new "http://crm" {} (some "secret") = .ok c ∧
      (∀ a ∈ asks, c.baseUrl.namesOrigin a.path = false) ∧
      ∃ log c' s', c.session w.recorded asks ([200, 429], []) = (c', s', log) ∧
        (∀ x ∈ sends log, x.1.origin = ("http", some (.domain "crm"), none)) ∧
        (sends log).length = 2 ∧ (c'.backoff.find? "/b").isSome := by
  intro _ w c asks
  have hurl : Url.parse "http://crm" = .ok exampleBase := by decide +kernel
  have hnew : BackoffClient.new "http://crm" {} (some "secret") = .ok c := by
    unfold BackoffClient.new urlOr
    rw [hurl]
    rfl
  have hpaths : ∀ a ∈ asks, c.baseUrl.namesOrigin a.path = false := by decide +kernel
  obtain ⟨log, c', s', hsession, horigin, -⟩ :=
    requests_stay_at_base_origin w hnew hpaths [200, 429]
  have hsends : (sends (c.session w.recorded asks ([200, 429], [])).2.2).length = 2 := by
    decide +kernel
  have hentry : ((c.session w.recorded asks ([200, 429], [])).1.backoff.find? "/b").isSome := by
    decide +kernel
  rw [hsession] at hsends hentry
  exact ⟨hnew, hpaths, log, c', s', hsession, horigin, hsends, hentry⟩

/-- A path with two slashes in front takes the token to the host that it names. The answer from
there then holds back the same path of the base. -/
theorem request_leaves_base_origin :
    let _ : HostNames := .plain
    let w := exampleSurroundings "new"
    let c : BackoffClient := ⟨exampleBase, .new {}, some "secret"⟩
    let (_, c', s', log) := c.request w.recorded "GET" "//elsewhere/a" none ([429, 200], [])
    (sends log).map (fun x => (x.1.origin, x.2.headers.lookup "authorization")) =
        [(("http", some (.domain "elsewhere"), none), some "Bearer secret")] ∧
      c.baseUrl.origin = ("http", some (.domain "crm"), none) ∧
      c'.baseUrl.join "/a" = .ok { exampleBase with path := .segments ["a"] } ∧
      (c'.backoff.cooling? "/a" (w.now s')).isSome := by
  decide +kernel

end Cadence
