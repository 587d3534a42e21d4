import McpFramework.Auth.PassthroughHistory

/-!
# Auth — SessionPrincipal

Whether a Passthrough session stays with its principal: a bearer of somebody
else that names the session is to be refused and the session's token left
alone.

The comparison of principals is made only while neither key knows the bearer.
A foreign bearer that is already stored under its own credential key arrives as
`matchingGrantToken`, passes without being compared, and its material is
carried onto the session it names (`Adopts`).
-/

namespace McpFramework

open Lib

variable (c : Codec)

/-- The bearer is the token of another entry, the one under its own credential
key, and that entry can be served: either the bearer is not expired, or it or
the session has something to refresh with. -/
def Adopts (clock : Clock) (st : TokenStore) (sessionId token : String) (e : StoredToken) :
    Prop :=
  credentialSessionKey c token ≠ sessionId ∧
    ∃ g, st.lookup clock (credentialSessionKey c token) = some g ∧ g.accessToken = token ∧
      ¬ ((g.isExpired clock.now = true ∨ jwtIsExpired c clock token = some true) ∧
        g.refreshToken = none ∧ e.refreshToken = none)

/-- The two credentials are JWTs of different principals. -/
structure Foreign (token : String) (e : StoredToken) : Prop where
  subject : ∃ p q, jwtSubject c e.accessToken = some p ∧ jwtSubject c token = some q ∧ p ≠ q
  key : credentialSessionKey c token ≠ credentialSessionKey c e.accessToken

/-- The request is refused and the session's token is as it was. -/
def Refused (clock : Clock) (sessionId : String) (e : StoredToken) (r : Response) : Prop :=
  r.outcome = .unauthorized ∧ r.store.lookup clock sessionId = some e

section Refusal

variable {c} {env : Surroundings} {st : TokenStore} {sessionId token : String} {e : StoredToken}

theorem Foreign.ne (h : Foreign c token e) : e.accessToken ≠ token := by
  rintro rfl
  exact h.key rfl

theorem Foreign.not_samePrincipal (h : Foreign c token e) :
    samePrincipal c token e.accessToken = false := by
  obtain ⟨p, q, hp, hq, hne⟩ := h.subject
  simp [samePrincipal, hp, hq, Ne.symm hne, h.key]

/-- Unknown under both keys, a foreign bearer is refused before anything is
validated or written. -/
theorem foreign_unknown_refused (request : Request)
    (hS : resolveOrDeriveSessionId c request token = sessionId)
    (ht : bearerToken request = some token) (he : st.lookup env.clock sessionId = some e)
    (hf : Foreign c token e)
    (hg : (if credentialSessionKey c token ≠ sessionId then
        (st.lookup env.clock (credentialSessionKey c token)).filter
          fun stored => stored.accessToken = token
      else none) = none) :
    Refused env.clock sessionId e (bearerAuthMiddleware c env st request) := by
  have hseen := sight_of_unknown (c := c) he hf.ne
  rw [hg] at hseen
  have hmis : (sight c st env.clock sessionId token).2.principalMismatch c token = true := by
    rw [hseen]
    simp [Sighting.principalMismatch, hf.not_samePrincipal]
  simp only [Refused, bearerAuthMiddleware, ht, hS, hmis, if_true, lookup_sight, he, and_self]

/-- Known under its own key, a foreign bearer gets that entry's treatment. -/
theorem foreign_known_eq_serve (request : Request)
    (hS : resolveOrDeriveSessionId c request token = sessionId)
    (ht : bearerToken request = some token) (he : st.lookup env.clock sessionId = some e)
    (hf : Foreign c token e) {g : StoredToken} (hkey : credentialSessionKey c token ≠ sessionId)
    (hg : st.lookup env.clock (credentialSessionKey c token) = some g)
    (hga : g.accessToken = token) :
    bearerAuthMiddleware c env st request =
      serve c env (sight c st env.clock sessionId token).1 ⟨some e, none, some g⟩ sessionId token
        none := by
  have hseen := sight_of_unknown (c := c) he hf.ne
  rw [if_pos hkey, hg] at hseen
  have hg' : (some g).filter (fun stored => stored.accessToken = token) = some g := by
    simp [hga]
  rw [hg'] at hseen
  simp only [bearerAuthMiddleware, ht, hS, hseen]
  simp [Sighting.principalMismatch, validatedExpiry, Sighting.matchingToken]

/-- Serving a foreign bearer writes it onto the session, so that the session no
longer holds the token it held; otherwise the bearer was expired for good. -/
theorem serve_foreign {st' : TokenStore} {g : StoredToken} (hne : e.accessToken ≠ token)
    (he : st'.lookup env.clock sessionId = some e) :
    Refused env.clock sessionId e
        (serve c env st' ⟨some e, none, some g⟩ sessionId token none) ↔
      (g.isExpired env.clock.now = true ∨ jwtIsExpired c env.clock token = some true) ∧
        g.refreshToken = none ∧ e.refreshToken = none := by
  have hexp : Sighting.tokenIsExpired c ⟨some e, none, some g⟩ env.clock token none = true ↔
      g.isExpired env.clock.now = true ∨ jwtIsExpired c env.clock token = some true := by
    rw [Sighting.tokenIsExpired_iff]
    rfl
  have hrefresh : Sighting.hasRefresh ⟨some e, none, some g⟩ = false ↔
      g.refreshToken = none ∧ e.refreshToken = none := by
    simp [Sighting.hasRefresh, Sighting.matchingToken]
  rw [← hexp, ← hrefresh]
  unfold serve
  by_cases hx : Sighting.tokenIsExpired c ⟨some e, none, some g⟩ env.clock token none = true
  · by_cases hr : Sighting.hasRefresh ⟨some e, none, some g⟩ = false
    · simp [hx, hr, Refused, he]
    · have hr' : Sighting.hasRefresh ⟨some e, none, some g⟩ = true := by simpa using hr
      refine iff_of_false ?_ fun h => hr h.2
      -- The entry of the grant key is written under the session and then refreshed.
      have hstored : (writeBack c env st' ⟨some e, none, some g⟩ sessionId token none).lookup
          env.clock sessionId = some ⟨token, g.refreshToken, g.expiresAt⟩ := by
        simp [writeBack, Sighting.needsStore, Sighting.replacement, Sighting.matchingToken, hne,
          TokenStore.lookup_storeToken]
      obtain ⟨hlook, -, hout⟩ := finish_spec env token hstored
      rw [hx, hr']
      rintro ⟨hunauth, hsame⟩
      have hkeep := TokenStore.gotOf_none (hout.mp hunauth)
      have hsame' := (hlook.trans hkeep).symm.trans hsame
      cases hsame'
      exact hne rfl
  · have hx' : Sighting.tokenIsExpired c ⟨some e, none, some g⟩ env.clock token none = false := by
      simpa using hx
    simp [hx', Refused, finish]

/-- **A foreign bearer is refused, unless it is known under its own key.**
Whatever the store holds, a request for a session that carries a JWT of another
principal is answered 401 and leaves the session's token alone exactly when the
bearer is not the servable token of another entry. -/
theorem foreign_bearer_refused_iff (c : Codec) (env : Surroundings) (st : TokenStore)
    (request : Request) (sessionId token : String) (e : StoredToken)
    (hS : request.mcpSessionId = some (.text sessionId))
    (ht : bearerToken request = some token) (he : st.lookup env.clock sessionId = some e)
    (hf : Foreign c token e) :
    Refused env.clock sessionId e (bearerAuthMiddleware c env st request) ↔
      ¬ Adopts c env.clock st sessionId token e := by
  have hsess : resolveOrDeriveSessionId c request token = sessionId := by
    simp [resolveOrDeriveSessionId, hS, HeaderValue.toStr]
  by_cases hkey : credentialSessionKey c token ≠ sessionId
  · cases hg : (st.lookup env.clock (credentialSessionKey c token)).filter
      fun stored => stored.accessToken = token with
    | none =>
      refine iff_of_true (foreign_unknown_refused request hsess ht he hf ?_) ?_
      · rw [if_pos hkey, hg]
      · rintro ⟨-, g, hlook, hga, -⟩
        simp [hlook, hga] at hg
    | some g =>
      obtain ⟨hlook, hga⟩ := Option.filter_eq_some_iff.mp hg
      have hga : g.accessToken = token := by simpa using hga
      rw [foreign_known_eq_serve request hsess ht he hf hkey hlook hga,
        serve_foreign hf.ne (by rw [lookup_sight, he])]
      constructor
      · rintro hdead ⟨-, g', hlook', -, hlive⟩
        rw [hlook] at hlook'
        cases hlook'
        exact hlive hdead
      · intro hno
        by_contra hlive
        exact hno ⟨hkey, g, hlook, hga, hlive⟩
  · refine iff_of_true (foreign_unknown_refused request hsess ht he hf ?_) ?_
    · rw [if_neg hkey]
    · rintro ⟨hne, -⟩
      exact hkey hne

end Refusal

/-! ## Two principals -/

namespace TwoPrincipals

/-- `{"alg":"RS256"}` and the payloads `{"sub":"alice"}` and
`{"sub":"mallory"}`, with the digests of the two subjects. -/
def codec : Codec where
  decode segment :=
    if segment = "eyJhbGciOiJSUzI1NiJ9" then some (.obj [("alg", .str "RS256")])
    else if segment = "eyJzdWIiOiJhbGljZSJ9" then some (.obj [("sub", .str "alice")])
    else if segment = "eyJzdWIiOiJtYWxsb3J5In0" then some (.obj [("sub", .str "mallory")])
    else none
  sha256 value :=
    if value = "alice" then
      [43, 216, 6, 201, 127, 14, 0, 175, 26, 31, 195, 50, 143, 167, 99, 169, 38, 151, 35, 200,
        219, 143, 172, 79, 147, 175, 113, 219, 24, 109, 110, 144]
    else
      [192, 164, 151, 118, 27, 23, 83, 121, 237, 99, 57, 124, 201, 128, 84, 101, 89, 250, 168,
        76, 169, 203, 238, 222, 119, 49, 23, 195, 21, 8, 182, 172]

def alice : String := "eyJhbGciOiJSUzI1NiJ9.eyJzdWIiOiJhbGljZSJ9.c2ln"

def mallory : String := "eyJhbGciOiJSUzI1NiJ9.eyJzdWIiOiJtYWxsb3J5In0.c2ln"

/-- A request that names session `S`. -/
def onS (token : String) : Request := Request.ofBearer token (some "S")

def clock : Clock := ⟨0, 1000000000000⟩

/-- Both bearers are valid and do not say when they expire. -/
def surroundings : Surroundings := ⟨clock, fun _ => some none, fun _ => none⟩

/-- Alice has used session `S`. -/
def aliceOnS : TokenStore :=
  (bearerAuthMiddleware codec surroundings (TokenStore.new true none) (onS alice)).store

theorem foreign : Foreign codec mallory ⟨alice, none, none⟩ :=
  ⟨⟨"alice", "mallory", by decide +kernel, by decide +kernel, by decide⟩, by decide +kernel⟩

end TwoPrincipals

open TwoPrincipals in
/-- Mallory, not seen before, is refused on Alice's session. -/
theorem foreign_bearer_refused_first :
    Refused clock "S" ⟨alice, none, none⟩
      (bearerAuthMiddleware codec surroundings aliceOnS (onS mallory)) := by
  refine (foreign_bearer_refused_iff codec surroundings aliceOnS (onS mallory) "S" mallory
    ⟨alice, none, none⟩ rfl (by decide +kernel) (by decide +kernel) foreign).mpr ?_
  rintro ⟨-, g, hg, -, -⟩
  have hnone : aliceOnS.lookup clock (credentialSessionKey codec mallory) = none := by
    decide +kernel
  rw [show surroundings.clock = clock from rfl, hnone] at hg
  cases hg

open TwoPrincipals in
/-- Mallory first sends the bearer without a session, then with Alice's: it is
served, and Alice's session holds Mallory's token. -/
theorem foreign_bearer_adopted :
    ¬ ∀ (c : Codec) (s : PassthroughHistory.State), PassthroughHistory.Reachable c s →
      ∀ (env : Surroundings) (request : Request) (sessionId token : String) (e : StoredToken),
        env.clock = s.clock → request.mcpSessionId = some (.text sessionId) →
          bearerToken request = some token → s.store.lookup env.clock sessionId = some e →
            Foreign c token e →
              Refused env.clock sessionId e (bearerAuthMiddleware c env s.store request) := by
  intro h
  obtain ⟨s, hr, hp⟩ := System.exists_reach_of_run (S := PassthroughHistory.system codec)
    (G := fun _ _ => True) (s := ⟨clock, TokenStore.new true none⟩)
    (w := [.bearer surroundings.validateUnknownBearer surroundings.endpoint (onS alice),
      .bearer surroundings.validateUnknownBearer surroundings.endpoint
        (Request.ofBearer mallory none)])
    (p := fun s => decide (s.clock = clock ∧
      s.store.lookup clock "S" = some ⟨alice, none, none⟩ ∧
      (bearerAuthMiddleware codec surroundings s.store (onS mallory)).outcome =
        .next "S" mallory)) (by decide +kernel)
  simp only [decide_eq_true_eq] at hp
  obtain ⟨hclock, hlook, hout⟩ := hp
  have hrefused := h codec s ⟨clock, true, none, hr⟩ surroundings (onS mallory) "S" mallory
    ⟨alice, none, none⟩ hclock.symm rfl (by decide +kernel) hlook foreign
  have := hrefused.1
  rw [hout] at this
  cases this

end McpFramework
