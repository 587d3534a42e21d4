import McpFramework.Auth.TokenStore
import McpFramework.Core.Text

/-!
# Auth — Middleware

`bearer_auth_middleware` in `TokenMode::Passthrough` (`auth/middleware.rs`): the
bearer is looked up under two keys, the request's session and the key derived
from the credential, and the store entry of the session is then written from
whichever entry knew it.

`validate_unknown_bearer` asks the issuer's keys or its introspection endpoint;
what it answers for the bearer at hand is an input of the request. One clock
reading stands for all those of a request.
-/

namespace McpFramework

/-- A header value, as far as `to_str` tells them apart. -/
inductive HeaderValue where
  | text (s : String)
  | opaqueBytes
deriving DecidableEq, Repr

def HeaderValue.toStr : HeaderValue → Option String
  | .text s => some s
  | .opaqueBytes => none

structure Request where
  authorization : Option HeaderValue
  mcpSessionId : Option HeaderValue
deriving DecidableEq, Repr

/-- A request with a bearer, for a protocol session or for none. -/
def Request.ofBearer (token : String) (mcpSessionId : Option String) : Request :=
  { authorization := some (.text ("Bearer " ++ token))
    mcpSessionId := mcpSessionId.map .text }

/-- What a request meets outside the store: the clocks, what
`validate_unknown_bearer` makes of its bearer (`some expiry` when accepted),
and the authorization server's token endpoint. -/
structure Surroundings where
  clock : Clock
  validateUnknownBearer : String → Option (Option Nat)
  endpoint : Endpoint

/-- A 401, or the next handler with the session the request is bound to and
the bearer it sees. -/
inductive Outcome where
  | unauthorized
  | next (sessionId bearer : String)
deriving DecidableEq, Repr

/-- What a request leaves behind; `submitted` are the refresh tokens sent to
the token endpoint on its behalf. -/
structure Response where
  store : TokenStore
  outcome : Outcome
  submitted : List String
deriving DecidableEq

def BEARER_PREFIX : String := "Bearer "
def BEARER_PREFIX_LOWER : String := "bearer "

/-- The bearer of a request; `none` is a 401. -/
def bearerToken (request : Request) : Option String :=
  match request.authorization.bind HeaderValue.toStr with
  | some header =>
    match (stripPrefix? header BEARER_PREFIX).or (stripPrefix? header BEARER_PREFIX_LOWER) with
    | some token => if token = "" then none else some token
    | none => none
  | none => none

variable (c : Codec)

/-- The session identity of a request: the protocol's, or one derived from the
credential. -/
def resolveOrDeriveSessionId (request : Request) (credential : String) : String :=
  match request.mcpSessionId.bind HeaderValue.toStr with
  | some sid => sid
  | none => credentialSessionKey c credential

/-- What the middleware has read before it decides anything. -/
structure Sighting where
  sessionToken : Option StoredToken
  matchingSessionToken : Option StoredToken
  matchingGrantToken : Option StoredToken
deriving DecidableEq

namespace Sighting

/-- The entry the bearer is known by. -/
def matchingToken (s : Sighting) : Option StoredToken :=
  s.matchingSessionToken.or s.matchingGrantToken

/-- A new bearer on a session that already carries one is refused when it
belongs to a different principal. -/
def principalMismatch (s : Sighting) (token : String) : Bool :=
  match s.sessionToken with
  | some previous =>
    s.matchingSessionToken.isNone && s.matchingGrantToken.isNone &&
      !samePrincipal c token previous.accessToken
  | none => false

/-- What the store should hold; `none` leaves it as it is. -/
def replacement (s : Sighting) (token : String) (validatedExpiry : Option Nat) :
    Option StoredToken :=
  match s.matchingToken with
  | some previous =>
    -- The bearer is a known entry: carry its material onto this key.
    some { accessToken := token, refreshToken := previous.refreshToken,
           expiresAt := previous.expiresAt }
  | none =>
    match s.sessionToken.filter (·.refreshToken.isSome) with
    | some previous =>
      -- Advance the access token only when this bearer is the newer of the two.
      if (jwtIsStrictlyNewer c token previous.accessToken).getD false then
        some { accessToken := token, refreshToken := previous.refreshToken,
               expiresAt := validatedExpiry.or previous.expiresAt }
      else none
    | none =>
      some { accessToken := token, refreshToken := none, expiresAt := validatedExpiry }

def tokenIsExpired (s : Sighting) (clock : Clock) (token : String)
    (validatedExpiry : Option Nat) : Bool :=
  (s.matchingToken.getD
      { accessToken := token, refreshToken := none, expiresAt := validatedExpiry }).isExpired
    clock.now ||
  (jwtIsExpired c clock token).getD false

def hasRefresh (s : Sighting) : Bool :=
  (s.matchingToken.bind (·.refreshToken)).isSome ||
    (s.sessionToken.bind (·.refreshToken)).isSome

/-- Only write back when something actually changed. -/
def needsStore (s : Sighting) (token : String) : Bool :=
  match s.sessionToken with
  | some previous => previous.accessToken ≠ token
  | none => true

end Sighting

/-- The two lookups of a bearer; the second one only where the first has not
found it and the keys differ. -/
def sight (st : TokenStore) (clock : Clock) (sessionId token : String) :
    TokenStore × Sighting :=
  let r := st.peekToken clock sessionId
  let matchingSessionToken := r.2.filter fun stored => stored.accessToken = token
  let grantKey := credentialSessionKey c token
  if matchingSessionToken.isNone ∧ grantKey ≠ sessionId then
    let g := r.1.peekToken clock grantKey
    (g.1, ⟨r.2, matchingSessionToken, g.2.filter fun stored => stored.accessToken = token⟩)
  else (r.1, ⟨r.2, matchingSessionToken, none⟩)

/-- The expiry a bearer without an entry is accepted with; `none` is a 401. -/
def validatedExpiry (env : Surroundings) (s : Sighting) (token : String) : Option (Option Nat) :=
  match s.matchingToken with
  | some _ => some none
  | none => env.validateUnknownBearer token

/-- Materialize the entry under the session before any refresh, which works on
the session's entry. -/
def writeBack (env : Surroundings) (st : TokenStore) (s : Sighting) (sessionId token : String)
    (validatedExpiry : Option Nat) : TokenStore :=
  match s.needsStore token, s.replacement c token validatedExpiry with
  | true, some storedToken => st.storeToken env.clock sessionId storedToken
  | _, _ => st

/-- The last stage: an expired bearer is only served after a refresh. -/
def finish (env : Surroundings) (st : TokenStore) (tokenIsExpired : Bool)
    (sessionId token : String) : Response :=
  if tokenIsExpired then
    let g := st.getToken env.clock env.endpoint sessionId
    match g.token with
    | some refreshed => ⟨g.store, .next sessionId refreshed.accessToken, g.submitted⟩
    | none => ⟨g.store, .unauthorized, g.submitted⟩
  else ⟨st, .next sessionId token, []⟩

def serve (env : Surroundings) (st : TokenStore) (s : Sighting) (sessionId token : String)
    (validatedExpiry : Option Nat) : Response :=
  let tokenIsExpired := s.tokenIsExpired c env.clock token validatedExpiry
  if tokenIsExpired && !s.hasRefresh then ⟨st, .unauthorized, []⟩
  else
    finish env (writeBack c env st s sessionId token validatedExpiry) tokenIsExpired sessionId
      token

/-- `bearer_auth_middleware`, in Passthrough mode. -/
def bearerAuthMiddleware (env : Surroundings) (st : TokenStore) (request : Request) : Response :=
  match bearerToken request with
  | none => ⟨st, .unauthorized, []⟩
  | some token =>
    let sessionId := resolveOrDeriveSessionId c request token
    let r := sight c st env.clock sessionId token
    if r.2.principalMismatch c token then ⟨r.1, .unauthorized, []⟩
    else
      match validatedExpiry env r.2 token with
      | none => ⟨r.1, .unauthorized, []⟩
      | some expiry => serve c env r.1 r.2 sessionId token expiry

/-! ## What the middleware sees

Looking changes no answer of the store, so the sightings can be read off the
store as the request found it. -/

variable {c} {st : TokenStore} {clock : Clock} {sessionId token : String}

@[simp] theorem lookup_sight (k : String) :
    (sight c st clock sessionId token).1.lookup clock k = st.lookup clock k := by
  unfold sight
  dsimp only
  split <;> simp [TokenStore.peekToken]

@[simp] theorem sight_persistence :
    (sight c st clock sessionId token).1.persistence = st.persistence := by
  unfold sight
  dsimp only
  split <;> simp [TokenStore.peekToken]

@[simp] theorem sight_refreshConfig :
    (sight c st clock sessionId token).1.refreshConfig = st.refreshConfig := by
  unfold sight
  dsimp only
  split <;> simp [TokenStore.peekToken]

theorem sight_snd :
    (sight c st clock sessionId token).2 =
      ⟨st.lookup clock sessionId,
        (st.lookup clock sessionId).filter fun stored => stored.accessToken = token,
        if ((st.lookup clock sessionId).filter fun stored => stored.accessToken = token).isNone ∧
            credentialSessionKey c token ≠ sessionId then
          (st.lookup clock (credentialSessionKey c token)).filter
            fun stored => stored.accessToken = token
        else none⟩ := by
  unfold sight
  dsimp only [TokenStore.peekToken]
  rw [TokenStore.getTokenRaw_snd]
  split
  · simp [TokenStore.getTokenRaw_snd]
  · rfl

/-- The session's own entry knows the bearer: the grant key is not asked. -/
theorem sight_of_known {e : StoredToken} (he : st.lookup clock sessionId = some e)
    (hknown : e.accessToken = token) :
    (sight c st clock sessionId token).2 = ⟨some e, some e, none⟩ := by
  rw [sight_snd, he]
  simp [hknown]

/-- The session's own entry does not know the bearer; the grant key's may. -/
theorem sight_of_unknown {e : StoredToken} (he : st.lookup clock sessionId = some e)
    (hunknown : e.accessToken ≠ token) :
    (sight c st clock sessionId token).2 =
      ⟨some e, none,
        if credentialSessionKey c token ≠ sessionId then
          (st.lookup clock (credentialSessionKey c token)).filter
            fun stored => stored.accessToken = token
        else none⟩ := by
  rw [sight_snd, he]
  simp [hunknown]

/-! ## What is written back -/

section WriteBack

variable {env : Surroundings} {session : Option StoredToken} {e g : StoredToken}
  {expiry : Option Nat}

/-- What is not known counts as false. -/
theorem getD_false_iff {o : Option Bool} : o.getD false = true ↔ o = some true := by
  simp [Option.getD_eq_iff]

theorem Sighting.tokenIsExpired_iff {s : Sighting} :
    s.tokenIsExpired c clock token expiry = true ↔
      (s.matchingToken.getD ⟨token, none, expiry⟩).isExpired clock.now = true ∨
        jwtIsExpired c clock token = some true := by
  rw [Sighting.tokenIsExpired, Bool.or_eq_true, getD_false_iff]

theorem Sighting.needsStore_of_unknown {matching grant : Option StoredToken}
    (hunknown : ∀ e, session = some e → e.accessToken ≠ token) :
    Sighting.needsStore ⟨session, matching, grant⟩ token = true := by
  unfold Sighting.needsStore
  cases session with
  | none => rfl
  | some e => simpa using hunknown e rfl

/-- The session's own entry knows the bearer. -/
theorem writeBack_own (hknown : e.accessToken = token) :
    writeBack c env st ⟨some e, some e, none⟩ sessionId token expiry = st := by
  simp [writeBack, Sighting.needsStore, hknown]

/-- The entry of the grant key knows it, and is carried to the session. -/
theorem writeBack_grant (hunknown : ∀ e, session = some e → e.accessToken ≠ token)
    (hknown : g.accessToken = token) :
    writeBack c env st ⟨session, none, some g⟩ sessionId token expiry =
      st.storeToken env.clock sessionId g := by
  have hcarried : (⟨token, g.refreshToken, g.expiresAt⟩ : StoredToken) = g := by rw [← hknown]
  simp [writeBack, Sighting.needsStore_of_unknown hunknown, Sighting.replacement,
    Sighting.matchingToken, hcarried]

/-- No entry knows it, and it is newer than the session's. -/
theorem writeBack_newer (hunknown : e.accessToken ≠ token)
    (hrefresh : e.refreshToken.isSome = true)
    (hnewer : jwtIsStrictlyNewer c token e.accessToken = some true) :
    writeBack c env st ⟨some e, none, none⟩ sessionId token expiry =
      st.storeToken env.clock sessionId ⟨token, e.refreshToken, expiry.or e.expiresAt⟩ := by
  simp [writeBack, Sighting.needsStore, Sighting.replacement, Sighting.matchingToken,
    Option.filter, hunknown, hrefresh, hnewer]

/-- No entry knows it, and it is no newer than the session's. -/
theorem writeBack_older (hrefresh : e.refreshToken.isSome = true)
    (holder : jwtIsStrictlyNewer c token e.accessToken ≠ some true) :
    writeBack c env st ⟨some e, none, none⟩ sessionId token expiry = st := by
  have hfalse : (jwtIsStrictlyNewer c token e.accessToken).getD false = false :=
    Bool.eq_false_iff.mpr (mt getD_false_iff.mp holder)
  simp [writeBack, Sighting.replacement, Sighting.matchingToken, Option.filter, hrefresh, hfalse]

end WriteBack

/-- What the last stage does to the session's entry `t`. -/
theorem finish_spec (env : Surroundings) {t : StoredToken} (token : String)
    (ht : st.lookup env.clock sessionId = some t) :
    let r := finish env st true sessionId token
    let g := st.gotOf env.clock env.endpoint sessionId t
    r.store.lookup env.clock sessionId = g.1 ∧ r.submitted = g.2.2 ∧
      (r.outcome = .unauthorized ↔ g.2.1 = none) := by
  have hget := TokenStore.getToken_spec env.endpoint ht
  dsimp only at hget ⊢
  rw [← hget]
  unfold finish
  dsimp only
  rw [if_pos rfl]
  cases (st.getToken env.clock env.endpoint sessionId).token with
  | some refreshed => simp
  | none => simp

end McpFramework
