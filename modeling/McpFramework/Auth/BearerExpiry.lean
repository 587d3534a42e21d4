import McpFramework.Auth.Middleware

/-!
# Auth — BearerExpiry

Whether the middleware forwards an expired credential. A bearer has two
expiries, the one stored with its entry and the `exp` of its JWT, and an expired
bearer by either is forwarded only after `get_token`. But `get_token` looks at
the stored expiry alone: an entry that is live by it, or a live copy of it in
the backend, is returned as it is, whatever its JWT says (`StaleAnswer`).
-/

namespace McpFramework

open Lib

variable (c : Codec)

/-! ## Expired credentials -/

/-- A bearer that is forwarded for a session has not expired, by its entry or by
its own claims. -/
structure Unexpired (clock : Clock) (st : TokenStore) (sessionId bearer : String) : Prop where
  stored : ∀ e, st.lookup clock sessionId = some e → e.accessToken = bearer →
    e.isExpired clock.now = false
  jwt : jwtIsExpired c clock bearer ≠ some true

/-- Whatever the response forwards has not expired. -/
def Response.ForwardsUnexpired (clock : Clock) (r : Response) : Prop :=
  ∀ sessionId bearer, r.outcome = .next sessionId bearer →
    Unexpired c clock r.store sessionId bearer

/-- The authorization server answers with tokens that have not expired. -/
def AnswersUnexpired (env : Surroundings) : Prop :=
  ∀ refreshToken new,
    (env.endpoint refreshToken).bind (TokenStore.refreshed env.clock refreshToken) = some new →
    new.isExpired env.clock.now = false ∧ jwtIsExpired c env.clock new.accessToken ≠ some true

/-- An entry, or for an expired one its copy in the backend, that is live by its
stored expiry and past by its JWT. -/
def StaleAnswer (clock : Clock) (refreshConfig : Bool) (e : StoredToken)
    (copy : Option StoredToken) : Prop :=
  (e.isExpired clock.now = false ∧ jwtIsExpired c clock e.accessToken = some true) ∨
    (e.isExpired clock.now = true ∧ e.refreshToken.isSome = true ∧ refreshConfig = true ∧
      ∃ fresh, copy = some fresh ∧ fresh.isExpired clock.now = false ∧
        jwtIsExpired c clock fresh.accessToken = some true)

/-- No entry under the session's key or the grant's knows the bearer. -/
def UnknownBearer (st : TokenStore) (clock : Clock) (sessionId token : String) : Prop :=
  ∀ k, k = sessionId ∨ k = credentialSessionKey c token →
    ∀ e, st.lookup clock k = some e → e.accessToken ≠ token

/-- A token as the backend, if there is one, hands it back once it is stored. -/
def copyOf (st : TokenStore) (clock : Clock) (token : StoredToken) : Option StoredToken :=
  if st.persistence.isSome then some (token.reload clock) else none

/-- The stores and bearers with which an expired credential is forwarded. -/
inductive Exposed (env : Surroundings) (st : TokenStore) (sessionId token : String) : Prop where
  /-- The session's own entry knows the bearer. -/
  | own {e : StoredToken} (he : st.lookup env.clock sessionId = some e)
      (hknown : e.accessToken = token) (hrefresh : e.refreshToken.isSome = true)
      (hstale : StaleAnswer c env.clock st.refreshConfig e
        (st.loadTokenFromBackend env.clock sessionId))
  /-- The entry of the grant does, and is carried to the session. -/
  | grant {g : StoredToken}
      (hunknown : ∀ e, st.lookup env.clock sessionId = some e → e.accessToken ≠ token)
      (hkey : credentialSessionKey c token ≠ sessionId)
      (hg : st.lookup env.clock (credentialSessionKey c token) = some g)
      (hknown : g.accessToken = token)
      (hrefresh : g.refreshToken.isSome = true ∨
        ((st.lookup env.clock sessionId).bind (·.refreshToken)).isSome = true)
      (hstale : StaleAnswer c env.clock st.refreshConfig g (copyOf st env.clock g))
  /-- A newer bearer takes over the entry, with its expiry where the validation
  found none. -/
  | newer {e : StoredToken} {expiry : Option Nat}
      (hunknown : UnknownBearer c st env.clock sessionId token)
      (he : st.lookup env.clock sessionId = some e) (hrefresh : e.refreshToken.isSome = true)
      (hprincipal : samePrincipal c token e.accessToken = true)
      (hvalid : env.validateUnknownBearer token = some expiry)
      (hnewer : jwtIsStrictlyNewer c token e.accessToken = some true)
      (hstale : (expiry = none ∧ e.isExpired env.clock.now = true ∧
          jwtIsExpired c env.clock token ≠ some true) ∨
        StaleAnswer c env.clock st.refreshConfig ⟨token, e.refreshToken, expiry.or e.expiresAt⟩
          (copyOf st env.clock ⟨token, e.refreshToken, expiry.or e.expiresAt⟩))
  /-- An expired bearer that is no newer is replaced by the entry. -/
  | older {e : StoredToken} {expiry : Option Nat}
      (hunknown : UnknownBearer c st env.clock sessionId token)
      (he : st.lookup env.clock sessionId = some e) (hrefresh : e.refreshToken.isSome = true)
      (hprincipal : samePrincipal c token e.accessToken = true)
      (hvalid : env.validateUnknownBearer token = some expiry)
      (holder : jwtIsStrictlyNewer c token e.accessToken ≠ some true)
      (hexpired : StoredToken.isExpired ⟨token, none, expiry⟩ env.clock.now = true ∨
        jwtIsExpired c env.clock token = some true)
      (hstale : StaleAnswer c env.clock st.refreshConfig e
        (st.loadTokenFromBackend env.clock sessionId))

variable {c} {env : Surroundings} {st : TokenStore} {sessionId token : String} {s : Sighting}
  {e g : StoredToken} {expiry : Option Nat}

/-! ## What `get_token` answers -/

/-- What `get_token` returns is the session's entry afterwards, is live by its
stored expiry, and is past by its JWT only where the entry is a stale answer. -/
theorem gotOf_stale_iff (hans : AnswersUnexpired c env) (e : StoredToken) :
    let g := st.gotOf env.clock env.endpoint sessionId e
    (∀ r, g.2.1 = some r → g.1 = some r ∧ r.isExpired env.clock.now = false) ∧
      ((∃ r, g.2.1 = some r ∧ jwtIsExpired c env.clock r.accessToken = some true) ↔
        StaleAnswer c env.clock st.refreshConfig e
          (st.loadTokenFromBackend env.clock sessionId)) := by
  unfold TokenStore.gotOf StaleAnswer
  cases hexp : e.isExpired env.clock.now with
  | false => simp [hexp]
  | true =>
    simp only [if_true, Bool.true_eq_false, false_and, false_or, true_and]
    cases hrt : e.refreshToken with
    | none => simp
    | some refreshToken =>
      cases hcfg : st.refreshConfig with
      | false => simp
      | true =>
        cases hadopt : st.adoptable env.clock sessionId with
        | some fresh =>
          obtain ⟨hload, hlive⟩ := Option.filter_eq_some_iff.mp hadopt
          have hlive : fresh.isExpired env.clock.now = false := by simpa using hlive
          simp [hload, hlive]
        | none =>
          have hnone : ∀ fresh, st.loadTokenFromBackend env.clock sessionId = some fresh →
              fresh.isExpired env.clock.now = true := by
            intro fresh hload
            unfold TokenStore.adoptable at hadopt
            rw [hload] at hadopt
            simpa [Option.filter] using hadopt
          have hfresh : ¬ ∃ fresh, st.loadTokenFromBackend env.clock sessionId = some fresh ∧
              fresh.isExpired env.clock.now = false ∧
              jwtIsExpired c env.clock fresh.accessToken = some true := by
            rintro ⟨fresh, hload, hlive, -⟩
            rw [hnone fresh hload] at hlive
            cases hlive
          cases hanswer : (env.endpoint refreshToken).bind
              (TokenStore.refreshed env.clock refreshToken) with
          | none => simp [hanswer, hfresh]
          | some new =>
            obtain ⟨hlive, hjwt⟩ := hans refreshToken new hanswer
            simp [hanswer, hfresh, hlive, hjwt]

/-! ## The last stage -/

theorem forwardsUnexpired_unauthorized (submitted : List String) :
    Response.ForwardsUnexpired c env.clock ⟨st, .unauthorized, submitted⟩ := by
  intro sessionId bearer hout
  cases hout

/-- A bearer that is forwarded as it came. -/
theorem finish_unexpired_iff (hjwt : jwtIsExpired c env.clock token ≠ some true)
    (he : st.lookup env.clock sessionId = some e) :
    (finish env st false sessionId token).ForwardsUnexpired c env.clock ↔
      (e.accessToken = token → e.isExpired env.clock.now = false) := by
  constructor
  · intro h
    exact (h sessionId token rfl).stored e he
  · intro h sessionId' bearer hout
    cases hout
    refine ⟨?_, hjwt⟩
    intro e' he'
    have he' : st.lookup env.clock sessionId = some e' := he'
    rw [he] at he'
    cases he'
    exact h

/-- A bearer that is replaced by what `get_token` answers. -/
theorem finish_expired_iff (hans : AnswersUnexpired c env)
    (he : st.lookup env.clock sessionId = some e) :
    (finish env st true sessionId token).ForwardsUnexpired c env.clock ↔
      ¬ StaleAnswer c env.clock st.refreshConfig e
        (st.loadTokenFromBackend env.clock sessionId) := by
  have hget := TokenStore.getToken_spec env.endpoint he
  obtain ⟨hlive, hstale⟩ := @gotOf_stale_iff c env st sessionId hans e
  dsimp only at hget hlive hstale
  rw [← hget] at hlive hstale
  rw [← hstale]
  unfold finish
  rw [if_pos rfl]
  dsimp only
  cases hgot : (st.getToken env.clock env.endpoint sessionId).token with
  | none =>
    refine iff_of_true (forwardsUnexpired_unauthorized _) ?_
    rintro ⟨r, hr, -⟩
    cases hr
  | some r =>
    obtain ⟨hentry, hnow⟩ := hlive r hgot
    constructor
    · rintro h ⟨r', hr', hpast⟩
      cases hr'
      exact (h sessionId r.accessToken rfl).jwt hpast
    · intro hno sessionId' bearer hout
      cases hout
      refine ⟨?_, fun hpast => hno ⟨r, rfl, hpast⟩⟩
      intro e' he' _
      have he' : (st.getToken env.clock env.endpoint sessionId).store.lookup env.clock sessionId =
        some e' := he'
      rw [← Option.some.inj (hentry.symm.trans he')]
      exact hnow

/-- What is forwarded depends on the entry `e` that the session has once the
bearer is written back. -/
theorem serve_unexpired_iff (hans : AnswersUnexpired c env)
    (he : (writeBack c env st s sessionId token expiry).lookup env.clock sessionId = some e) :
    (serve c env st s sessionId token expiry).ForwardsUnexpired c env.clock ↔
      if s.tokenIsExpired c env.clock token expiry then
        s.hasRefresh = true → ¬ StaleAnswer c env.clock st.refreshConfig e
          ((writeBack c env st s sessionId token expiry).loadTokenFromBackend env.clock sessionId)
      else e.accessToken = token → e.isExpired env.clock.now = false := by
  have hcfg : (writeBack c env st s sessionId token expiry).refreshConfig = st.refreshConfig := by
    unfold writeBack
    split <;> rfl
  unfold serve
  cases hexp : s.tokenIsExpired c env.clock token expiry with
  | true =>
    cases hrefresh : s.hasRefresh with
    | false =>
      simp only [Bool.not_false, Bool.and_self, if_true]
      exact iff_of_true (forwardsUnexpired_unauthorized _) (fun h => by cases h)
    | true =>
      simp only [Bool.not_true, Bool.and_false, Bool.false_eq_true, if_false, if_true,
        true_implies]
      rw [finish_expired_iff hans he, hcfg]
  | false =>
    have hjwt : jwtIsExpired c env.clock token ≠ some true := by
      intro hpast
      simp [Sighting.tokenIsExpired, hpast] at hexp
    simp only [Bool.false_and, Bool.false_eq_true, if_false]
    exact finish_unexpired_iff hjwt he

/-! ## The bearers, by what knows them -/

theorem staleAnswer_live (hlive : e.isExpired env.clock.now = false) {cfg : Bool}
    {copy : Option StoredToken} : StaleAnswer c env.clock cfg e copy ↔
      jwtIsExpired c env.clock e.accessToken = some true := by
  simp [StaleAnswer, hlive]

/-- An entry whose bearer is not expired is not, and no answer of it is stale. -/
theorem unexpired_of_matching {s : Sighting} (hmatching : s.matchingToken = some e)
    (hknown : e.accessToken = token)
    (hlive : ¬ s.tokenIsExpired c env.clock token expiry = true) :
    e.isExpired env.clock.now = false ∧
      ∀ cfg copy, ¬ StaleAnswer c env.clock cfg e copy := by
  rw [Sighting.tokenIsExpired_iff, hmatching, Option.getD_some, not_or, Bool.not_eq_true] at hlive
  refine ⟨hlive.1, fun cfg copy hstale => ?_⟩
  rw [staleAnswer_live hlive.1, hknown] at hstale
  exact hlive.2 hstale

/-- A bearer that no entry knows is expired by its validation or by its claims. -/
theorem tokenIsExpired_unknown (session : Option StoredToken) :
    Sighting.tokenIsExpired c ⟨session, none, none⟩ env.clock token expiry = true ↔
      StoredToken.isExpired ⟨token, none, expiry⟩ env.clock.now = true ∨
        jwtIsExpired c env.clock token = some true := by
  rw [Sighting.tokenIsExpired_iff]
  rfl

theorem load_copyOf (token : StoredToken) :
    (st.storeToken env.clock sessionId token).loadTokenFromBackend env.clock sessionId =
      copyOf st env.clock token :=
  TokenStore.load_storeToken token

/-- The session's own entry knows the bearer. -/
theorem own_unexpired_iff (hans : AnswersUnexpired c env)
    (he : st.lookup env.clock sessionId = some e) (hknown : e.accessToken = token) :
    (serve c env st ⟨some e, some e, none⟩ sessionId token none).ForwardsUnexpired c env.clock ↔
      ¬ (e.refreshToken.isSome = true ∧ StaleAnswer c env.clock st.refreshConfig e
        (st.loadTokenFromBackend env.clock sessionId)) := by
  have hwrite : writeBack c env st ⟨some e, some e, none⟩ sessionId token none = st :=
    writeBack_own hknown
  rw [serve_unexpired_iff hans (by rw [hwrite, he]), hwrite]
  have hrefresh : Sighting.hasRefresh ⟨some e, some e, none⟩ = e.refreshToken.isSome := by
    simp [Sighting.hasRefresh, Sighting.matchingToken]
  rw [hrefresh, not_and]
  split
  · rfl
  · rename_i hexpired
    obtain ⟨hlive, hfresh⟩ := unexpired_of_matching (by rfl) hknown hexpired
    exact iff_of_true (fun _ => hlive) fun _ => hfresh _ _

/-- The entry of the grant knows the bearer. -/
theorem grant_unexpired_iff (hans : AnswersUnexpired c env) {session : Option StoredToken}
    (hunknown : ∀ e, session = some e → e.accessToken ≠ token) (hknown : g.accessToken = token) :
    (serve c env st ⟨session, none, some g⟩ sessionId token none).ForwardsUnexpired c env.clock ↔
      ¬ ((g.refreshToken.isSome = true ∨ (session.bind (·.refreshToken)).isSome = true) ∧
        StaleAnswer c env.clock st.refreshConfig g (copyOf st env.clock g)) := by
  have hwrite : writeBack c env st ⟨session, none, some g⟩ sessionId token none =
      st.storeToken env.clock sessionId g := writeBack_grant hunknown hknown
  rw [serve_unexpired_iff (e := g) hans (by rw [hwrite, TokenStore.lookup_storeToken, if_pos rfl]),
    hwrite, load_copyOf]
  have hrefresh : Sighting.hasRefresh ⟨session, none, some g⟩ = true ↔
      g.refreshToken.isSome = true ∨ (session.bind (·.refreshToken)).isSome = true := by
    simp [Sighting.hasRefresh, Sighting.matchingToken]
  rw [hrefresh, not_and]
  split
  · rfl
  · rename_i hexpired
    obtain ⟨hlive, hfresh⟩ := unexpired_of_matching (by rfl) hknown hexpired
    exact iff_of_true (fun _ => hlive) fun _ => hfresh _ _

/-- Nothing knows the bearer and the session has no refresh token. -/
theorem unknown_unexpired {session : Option StoredToken}
    (hunknown : ∀ e, session = some e → e.accessToken ≠ token)
    (hrefresh : session.bind (·.refreshToken) = none) (hans : AnswersUnexpired c env) :
    (serve c env st ⟨session, none, none⟩ sessionId token expiry).ForwardsUnexpired c
      env.clock := by
  have hsession : session.filter (·.refreshToken.isSome) = none := by
    cases session with
    | none => rfl
    | some e =>
      have hnone : e.refreshToken = none := hrefresh
      simp [Option.filter, hnone]
  have hwrite : writeBack c env st ⟨session, none, none⟩ sessionId token expiry =
      st.storeToken env.clock sessionId ⟨token, none, expiry⟩ := by
    simp [writeBack, Sighting.needsStore_of_unknown hunknown, Sighting.replacement,
      Sighting.matchingToken, hsession]
  rw [serve_unexpired_iff (e := ⟨token, none, expiry⟩) hans
    (by rw [hwrite, TokenStore.lookup_storeToken, if_pos rfl])]
  split
  · intro hhas
    simp [Sighting.hasRefresh, Sighting.matchingToken, hrefresh] at hhas
  · rename_i hlive
    rw [tokenIsExpired_unknown, not_or, Bool.not_eq_true] at hlive
    exact fun _ => hlive.1

/-- Nothing knows the bearer, which is newer than the session's entry. -/
theorem newer_unexpired_iff (hans : AnswersUnexpired c env) (hunknown : e.accessToken ≠ token)
    (hrefresh : e.refreshToken.isSome = true)
    (hnewer : jwtIsStrictlyNewer c token e.accessToken = some true) :
    (serve c env st ⟨some e, none, none⟩ sessionId token expiry).ForwardsUnexpired c env.clock ↔
      ¬ ((expiry = none ∧ e.isExpired env.clock.now = true ∧
          jwtIsExpired c env.clock token ≠ some true) ∨
        StaleAnswer c env.clock st.refreshConfig ⟨token, e.refreshToken, expiry.or e.expiresAt⟩
          (copyOf st env.clock ⟨token, e.refreshToken, expiry.or e.expiresAt⟩)) := by
  have hwrite : writeBack c env st ⟨some e, none, none⟩ sessionId token expiry =
      st.storeToken env.clock sessionId ⟨token, e.refreshToken, expiry.or e.expiresAt⟩ :=
    writeBack_newer hunknown hrefresh hnewer
  rw [serve_unexpired_iff (e := ⟨token, e.refreshToken, expiry.or e.expiresAt⟩) hans
    (by rw [hwrite, TokenStore.lookup_storeToken, if_pos rfl]), hwrite, load_copyOf]
  have hhas : Sighting.hasRefresh ⟨some e, none, none⟩ = true := by
    simp [Sighting.hasRefresh, hrefresh]
  rw [not_or]
  split
  · rename_i hexpired
    have hfirst : ¬ (expiry = none ∧ e.isExpired env.clock.now = true ∧
        jwtIsExpired c env.clock token ≠ some true) := by
      rintro ⟨rfl, -, hjwt⟩
      rcases (tokenIsExpired_unknown (some e)).mp hexpired with hpast | hpast
      · cases hpast
      · exact hjwt hpast
    simp [hhas, hfirst]
  · rename_i hlive
    rw [tokenIsExpired_unknown, not_or, Bool.not_eq_true] at hlive
    obtain ⟨hvalid, hjwt⟩ := hlive
    -- Neither the entry nor its copy can answer with a token whose JWT is past.
    have hfresh : ¬ StaleAnswer c env.clock st.refreshConfig
        ⟨token, e.refreshToken, expiry.or e.expiresAt⟩
        (copyOf st env.clock ⟨token, e.refreshToken, expiry.or e.expiresAt⟩) := by
      rintro (⟨-, hpast⟩ | ⟨-, -, -, fresh, hfresh, -, hpast⟩)
      · exact hjwt hpast
      · unfold copyOf at hfresh
        split at hfresh
        · cases hfresh
          exact hjwt hpast
        · cases hfresh
    cases expiry with
    | some x =>
      refine iff_of_true (fun _ => hvalid) ⟨?_, hfresh⟩
      rintro ⟨hnone, -⟩
      cases hnone
    | none =>
      simp only [Option.none_or] at hfresh ⊢
      simp only [hfresh, not_false_eq_true, and_true, true_and, ne_eq, hjwt, forall_const]
      show e.isExpired env.clock.now = false ↔ _
      rw [Bool.not_eq_true]

/-- Nothing knows the bearer, which is no newer than the session's entry. -/
theorem older_unexpired_iff (hans : AnswersUnexpired c env)
    (he : st.lookup env.clock sessionId = some e) (hunknown : e.accessToken ≠ token)
    (hrefresh : e.refreshToken.isSome = true)
    (holder : jwtIsStrictlyNewer c token e.accessToken ≠ some true) :
    (serve c env st ⟨some e, none, none⟩ sessionId token expiry).ForwardsUnexpired c env.clock ↔
      ¬ ((StoredToken.isExpired ⟨token, none, expiry⟩ env.clock.now = true ∨
          jwtIsExpired c env.clock token = some true) ∧
        StaleAnswer c env.clock st.refreshConfig e
          (st.loadTokenFromBackend env.clock sessionId)) := by
  have hwrite : writeBack c env st ⟨some e, none, none⟩ sessionId token expiry = st :=
    writeBack_older hrefresh holder
  rw [serve_unexpired_iff hans (by rw [hwrite, he]), hwrite]
  have hhas : Sighting.hasRefresh ⟨some e, none, none⟩ = true := by
    simp [Sighting.hasRefresh, hrefresh]
  rw [← tokenIsExpired_unknown (some e)]
  split
  · rename_i h
    simp [hhas, h]
  · rename_i h
    simp [h, hunknown]

/-! ## Every request -/

theorem load_sight (k : String) :
    (sight c st env.clock sessionId token).1.loadTokenFromBackend env.clock k =
      st.loadTokenFromBackend env.clock k := by
  simp only [TokenStore.loadTokenFromBackend, TokenStore.record_congr sight_persistence]

theorem copyOf_sight (t : StoredToken) :
    copyOf (sight c st env.clock sessionId token).1 env.clock t = copyOf st env.clock t := by
  simp only [copyOf, sight_persistence]

/-- What the middleware sees of a bearer the session's own entry does not know. -/
theorem sight_of_not_own
    (hunknown : ∀ e, st.lookup env.clock sessionId = some e → e.accessToken ≠ token) :
    (sight c st env.clock sessionId token).2 =
      ⟨st.lookup env.clock sessionId, none,
        if credentialSessionKey c token ≠ sessionId then
          (st.lookup env.clock (credentialSessionKey c token)).filter
            fun stored => stored.accessToken = token
        else none⟩ := by
  have hnone : ((st.lookup env.clock sessionId).filter
      fun stored => stored.accessToken = token) = none := by
    rw [Option.filter_eq_none_iff]
    intro e he
    simpa using hunknown e he
  rw [sight_snd, hnone]
  simp

/-- A bearer that no entry knows is exposed where the session's entry has a refresh
token and it has passed for the entry's principal and been validated. -/
theorem Exposed.of_unknown (hunknown : UnknownBearer c st env.clock sessionId token)
    (h : Exposed c env st sessionId token) :
    ∃ e expiry, st.lookup env.clock sessionId = some e ∧ e.refreshToken.isSome = true ∧
      samePrincipal c token e.accessToken = true ∧
      env.validateUnknownBearer token = some expiry ∧
      ((jwtIsStrictlyNewer c token e.accessToken = some true ∧
          ((expiry = none ∧ e.isExpired env.clock.now = true ∧
              jwtIsExpired c env.clock token ≠ some true) ∨
            StaleAnswer c env.clock st.refreshConfig ⟨token, e.refreshToken, expiry.or e.expiresAt⟩
              (copyOf st env.clock ⟨token, e.refreshToken, expiry.or e.expiresAt⟩))) ∨
        (jwtIsStrictlyNewer c token e.accessToken ≠ some true ∧
          (StoredToken.isExpired ⟨token, none, expiry⟩ env.clock.now = true ∨
            jwtIsExpired c env.clock token = some true) ∧
          StaleAnswer c env.clock st.refreshConfig e
            (st.loadTokenFromBackend env.clock sessionId))) := by
  cases h with
  | own he hknown => exact absurd hknown (hunknown _ (.inl rfl) _ he)
  | grant _ _ hg hknown => exact absurd hknown (hunknown _ (.inr rfl) _ hg)
  | newer _ he hrefresh hsame hvalid hnewer hstale =>
    exact ⟨_, _, he, hrefresh, hsame, hvalid, .inl ⟨hnewer, hstale⟩⟩
  | older _ he hrefresh hsame hvalid holder hexpired hstale =>
    exact ⟨_, _, he, hrefresh, hsame, hvalid, .inr ⟨holder, hexpired, hstale⟩⟩

/-- A bearer that no entry knows. -/
theorem unknown_bearer_unexpired_iff (hans : AnswersUnexpired c env) {request : Request}
    (ht : bearerToken request = some token)
    (hS : resolveOrDeriveSessionId c request token = sessionId)
    (hunknown : UnknownBearer c st env.clock sessionId token)
    (hseen : (sight c st env.clock sessionId token).2 =
      ⟨st.lookup env.clock sessionId, none, none⟩) :
    (bearerAuthMiddleware c env st request).ForwardsUnexpired c env.clock ↔
      ¬ Exposed c env st sessionId token := by
  have hown : ∀ e, st.lookup env.clock sessionId = some e → e.accessToken ≠ token :=
    hunknown sessionId (.inl rfl)
  simp only [bearerAuthMiddleware, ht, hS, hseen, validatedExpiry, Sighting.matchingToken,
    Option.or_none]
  cases hprincipal : Sighting.principalMismatch c ⟨st.lookup env.clock sessionId, none, none⟩
      token with
  | true =>
    refine iff_of_true (forwardsUnexpired_unauthorized []) fun h => ?_
    obtain ⟨e, expiry, he, -, hsame, -⟩ := h.of_unknown hunknown
    rw [Sighting.principalMismatch, he] at hprincipal
    simp [hsame] at hprincipal
  | false =>
    have hsame : ∀ e, st.lookup env.clock sessionId = some e →
        samePrincipal c token e.accessToken = true := by
      intro e he
      rw [Sighting.principalMismatch, he] at hprincipal
      simpa using hprincipal
    simp only [Bool.false_eq_true, if_false]
    cases hvalid : env.validateUnknownBearer token with
    | none =>
      refine iff_of_true (forwardsUnexpired_unauthorized []) fun h => ?_
      obtain ⟨e, expiry, -, -, -, hvalid', -⟩ := h.of_unknown hunknown
      rw [hvalid] at hvalid'
      cases hvalid'
    | some expiry =>
      by_cases hrefresh : ∃ e, st.lookup env.clock sessionId = some e ∧
          e.refreshToken.isSome = true
      · obtain ⟨e, he, hrefresh⟩ := hrefresh
        have hlook : (sight c st env.clock sessionId token).1.lookup env.clock sessionId =
            some e := by rw [lookup_sight, he]
        simp only [he]
        by_cases hnewer : jwtIsStrictlyNewer c token e.accessToken = some true
        · rw [newer_unexpired_iff hans (hown e he) hrefresh hnewer, copyOf_sight,
            sight_refreshConfig]
          refine not_congr
            ⟨fun h => .newer hunknown he hrefresh (hsame e he) hvalid hnewer h, fun h => ?_⟩
          obtain ⟨e', expiry', he', -, -, hvalid', hcase⟩ := h.of_unknown hunknown
          rw [he] at he'
          rw [hvalid] at hvalid'
          cases he'
          cases hvalid'
          rcases hcase with ⟨-, hstale⟩ | ⟨holder, -⟩
          · exact hstale
          · exact absurd hnewer holder
        · rw [older_unexpired_iff hans hlook (hown e he) hrefresh hnewer, load_sight,
            sight_refreshConfig]
          refine not_congr
            ⟨fun h => .older hunknown he hrefresh (hsame e he) hvalid hnewer h.1 h.2, fun h => ?_⟩
          obtain ⟨e', expiry', he', -, -, hvalid', hcase⟩ := h.of_unknown hunknown
          rw [he] at he'
          rw [hvalid] at hvalid'
          cases he'
          cases hvalid'
          rcases hcase with ⟨hnewer', -⟩ | ⟨-, hstale⟩
          · exact absurd hnewer' hnewer
          · exact hstale
      · -- Nothing could refresh the bearer, so it is forwarded only while it is live.
        have hnone : (st.lookup env.clock sessionId).bind (·.refreshToken) = none := by
          rw [Option.bind_eq_none_iff]
          intro e he
          by_contra hsome
          exact hrefresh ⟨e, he, Option.isSome_iff_ne_none.mpr hsome⟩
        refine iff_of_true (unknown_unexpired hown hnone hans) fun h => ?_
        obtain ⟨e, expiry, he, hhas, -⟩ := h.of_unknown hunknown
        exact hrefresh ⟨e, he, hhas⟩

/-- **When the middleware forwards an expired credential**: exactly in the
exposed situations, provided that the authorization server answers refreshes
with tokens that have not expired. -/
theorem forwards_unexpired_iff (c : Codec) (env : Surroundings) (st : TokenStore)
    (request : Request) (hans : AnswersUnexpired c env) :
    (bearerAuthMiddleware c env st request).ForwardsUnexpired c env.clock ↔
      ∀ token, bearerToken request = some token →
        ¬ Exposed c env st (resolveOrDeriveSessionId c request token) token := by
  cases ht : bearerToken request with
  | none =>
    refine iff_of_true ?_ (fun token h => by cases h)
    rw [bearerAuthMiddleware, ht]
    exact forwardsUnexpired_unauthorized []
  | some token =>
    simp only [Option.some.injEq, forall_eq']
    generalize hS : resolveOrDeriveSessionId c request token = sessionId
    by_cases hown : ∃ e, st.lookup env.clock sessionId = some e ∧ e.accessToken = token
    · -- The session's own entry knows the bearer.
      obtain ⟨e, he, hknown⟩ := hown
      simp only [bearerAuthMiddleware, ht, hS, sight_of_known (c := c) he hknown]
      simp only [Sighting.principalMismatch, Option.isNone_some, Bool.false_and,
        Bool.false_eq_true, if_false, validatedExpiry, Sighting.matchingToken, Option.some_or]
      rw [own_unexpired_iff hans (by rw [lookup_sight, he]) hknown, load_sight,
        sight_refreshConfig]
      refine not_congr ⟨fun h => .own he hknown h.1 h.2, ?_⟩
      intro h
      cases h with
      | own he' _ hrefresh hstale =>
        rw [he] at he'
        cases he'
        exact ⟨hrefresh, hstale⟩
      | grant hunknown => exact absurd hknown (hunknown e he)
      | newer hunknown => exact absurd hknown (hunknown sessionId (.inl rfl) e he)
      | older hunknown => exact absurd hknown (hunknown sessionId (.inl rfl) e he)
    · have hunknown : ∀ e, st.lookup env.clock sessionId = some e → e.accessToken ≠ token :=
        fun e he hknown => hown ⟨e, he, hknown⟩
      have hseen := sight_of_not_own (c := c) hunknown
      cases hg : (if credentialSessionKey c token ≠ sessionId then
          (st.lookup env.clock (credentialSessionKey c token)).filter
            fun stored => stored.accessToken = token
        else none) with
      | some g =>
        -- The grant's entry knows it and is carried onto the session.
        rw [hg] at hseen
        split at hg
        · rename_i hkey
          obtain ⟨hlook, hknown⟩ := Option.filter_eq_some_iff.mp hg
          have hknown : g.accessToken = token := by simpa using hknown
          have hsame : Sighting.principalMismatch c
              ⟨st.lookup env.clock sessionId, none, some g⟩ token = false := by
            unfold Sighting.principalMismatch
            cases st.lookup env.clock sessionId with
            | none => rfl
            | some e => simp
          simp only [bearerAuthMiddleware, ht, hS, hseen, hsame]
          simp only [Bool.false_eq_true, if_false, validatedExpiry, Sighting.matchingToken,
            Option.none_or]
          rw [grant_unexpired_iff hans hunknown hknown, copyOf_sight, sight_refreshConfig]
          refine not_congr ⟨fun h => .grant hunknown hkey hlook hknown h.1 h.2, ?_⟩
          intro h
          cases h with
          | own he hknown' => exact absurd hknown' (hunknown _ he)
          | grant _ _ hlook' _ hrefresh hstale =>
            rw [hlook] at hlook'
            cases hlook'
            exact ⟨hrefresh, hstale⟩
          | newer hnone => exact absurd hknown (hnone _ (.inr rfl) g hlook)
          | older hnone => exact absurd hknown (hnone _ (.inr rfl) g hlook)
        · cases hg
      | none =>
        rw [hg] at hseen
        refine unknown_bearer_unexpired_iff hans ht hS ?_ hseen
        rintro k (rfl | rfl) e he hknown
        · exact hunknown e he hknown
        · by_cases hkey : credentialSessionKey c token = sessionId
          · rw [hkey] at he
            exact hunknown e he hknown
          · rw [if_pos hkey, he] at hg
            simp [Option.filter, hknown] at hg

/-! ## A login without a stored expiry -/

namespace PastLogin

/-- The header `{"alg":"RS256"}` and the payload `{"sub":"alice","exp":1000}`. -/
def codec : Codec where
  decode segment :=
    if segment = "eyJhbGciOiJSUzI1NiJ9" then some (.obj [("alg", .str "RS256")])
    else if segment = "eyJzdWIiOiJhbGljZSIsImV4cCI6MTAwMH0" then
      some (.obj [("sub", .str "alice"), ("exp", .num (.posInt 1000))])
    else none
  sha256 _ := []

def loginToken : String := "eyJhbGciOiJSUzI1NiJ9.eyJzdWIiOiJhbGljZSIsImV4cCI6MTAwMH0.c2ln"

/-- At 1000 seconds; a refresh is answered with a token that does not expire. -/
def surroundings : Surroundings :=
  ⟨⟨0, 1000000000000⟩, fun _ => some none, fun _ => some ⟨some "fresh", none, none⟩⟩

theorem answersUnexpired : AnswersUnexpired codec surroundings := by
  intro refreshToken new hnew
  cases hnew
  have hjwt : jwtIsExpired codec surroundings.clock "fresh" ≠ some true := by decide +kernel
  exact ⟨rfl, hjwt⟩

/-- The login came without an `expires_in`. -/
def store : TokenStore :=
  (TokenStore.new true none).storeToken surroundings.clock "S" ⟨loginToken, some "refresh", none⟩

end PastLogin

open PastLogin in
/-- On a store that holds nothing no expired bearer is forwarded. -/
theorem forwards_unexpired_at_first :
    (bearerAuthMiddleware codec surroundings (TokenStore.new true none)
      (Request.ofBearer loginToken (some "S"))).ForwardsUnexpired codec surroundings.clock := by
  refine (forwards_unexpired_iff codec surroundings (TokenStore.new true none)
    (Request.ofBearer loginToken (some "S")) answersUnexpired).mpr ?_
  intro token _ h
  cases h with
  | own he => cases he
  | grant _ _ hg => cases hg
  | newer _ he => cases he
  | older _ he => cases he

open PastLogin in
/-- The login's own token is forwarded after its `exp`: `get_token` finds an
entry that does not expire, and nothing is refreshed. -/
theorem past_login_forwarded :
    ¬ ∀ (c : Codec) (env : Surroundings) (st : TokenStore) (request : Request),
      AnswersUnexpired c env →
        (bearerAuthMiddleware c env st request).ForwardsUnexpired c env.clock := by
  intro h
  have hout : (bearerAuthMiddleware codec surroundings store
      (Request.ofBearer loginToken (some "S"))).outcome = .next "S" loginToken := by decide +kernel
  have hpast : jwtIsExpired codec surroundings.clock loginToken = some true := by decide +kernel
  exact (h codec surroundings store (Request.ofBearer loginToken (some "S"))
    answersUnexpired "S" loginToken hout).jwt hpast

end McpFramework
