import McpFramework.Auth.AuthLayer
import McpFramework.Auth.BindingLifetime

/-!
# Auth — ResourceServer

An instance that keeps no tokens (`authorize_as_resource_server` in
`auth/middleware.rs`), over every sequence of requests.

The session of a request is named by the protocol, and then the binding table
decides, or it is derived from the credential. Every run is one of the binding
table (`Simulates`), so what an accepted claim buys holds of requests: for the
window of a claim a session has one identity.
-/

namespace McpFramework.ResourceServer

open Lib
open Lib.BTreeMap (get containsKey)

/-! ## Runs -/

/-- A request that was passed on: as it came, and as it was passed on. -/
structure Served where
  env : AuthSurroundings
  headers : HeaderMap
  parts : Parts
  time : Nat

/-- One instance; `log` has the newest request first. -/
structure State where
  auth : AuthState
  now : Nat
  log : List Served

inductive Label where
  | tick (d : Nat)
  /-- The clock is the instance's, whatever else surrounds the request. -/
  | request (env : AuthSurroundings) (headers : HeaderMap)
  /-- The backend drops a binding. -/
  | lapse (session : String)

def atTime (env : AuthSurroundings) (now : Nat) : AuthSurroundings :=
  { env with clock := { env.clock with now := now } }

/-- A request behind the layer that strips the framework's header. -/
def arrived (headers : HeaderMap) : Parts := (Parts.ofHeaders headers).stripFrameworkSessionHeader

section Step

variable (c : Codec) (config : OAuthConfig) (publicUrl : String)

def afterRequest (st : State) (env : AuthSurroundings) (headers : HeaderMap) : State :=
  let r := wrapAuthMiddleware c (.oauth config) publicUrl (atTime env st.now) st.auth headers
  { auth := r.state, now := st.now
    log := match r.decision with
      | .next parts _ =>
        { env := env, headers := headers, parts := parts, time := st.now } :: st.log
      | .refused _ => st.log }

def step (st : State) : Label → Option State
  | .tick d => some { st with now := st.now + d }
  | .request env headers => some (afterRequest c config publicUrl st env headers)
  | .lapse session =>
    some { st with auth := { st.auth with bindings := st.auth.bindings.lapse session } }

def system : System State Label := ⟨step c config publicUrl⟩

/-- No live binding is evicted for capacity. -/
def calm (st : State) : Label → Bool
  | .request _ headers =>
    match bearerToken (arrived headers).request with
    | some token => st.auth.bindings.hasRoom st.now ((arrived headers).resolveOrDerive c token).2
    | none => true
  | _ => true

end Step

/-- A started instance: whatever its token store holds, and an empty table over
what was persisted before. -/
def init (store : TokenStore) (opaques : OpaqueGrants) (ttl maxEntries now : Nat)
    (persistence : Option (HashMap String StoredBytes)) : State :=
  { auth := { store := store, opaques := opaques
              bindings := (BindingLifetime.init ttl maxEntries now persistence).store }
    now := now, log := [] }

namespace Served

/-- The session the handler is given. -/
def session (r : Served) : String := r.parts.sessionId

/-- The bearer the handler is given. -/
def token (r : Served) : String := r.parts.bearerToken.getD ""

def identity (c : Codec) (r : Served) : String := credentialSessionKey c r.token

/-- Whether the protocol named the session, readably or not. -/
def named (r : Served) : Bool := containsKey (arrived r.headers).headers MCP_SESSION_ID_HEADER

/-- The session the protocol named. -/
def supplied (r : Served) : Option String :=
  (get (arrived r.headers).headers MCP_SESSION_ID_HEADER).bind HeaderValue.toStr

end Served

/-! ## One request -/

section Request

variable {c : Codec} {config : OAuthConfig} {publicUrl : String} {env : AuthSurroundings}
  {s : AuthState} {headers : HeaderMap} {st : State}

/-- What is passed on of a request with a validated bearer. -/
def passed (c : Codec) (parts : Parts) (token : String) (expiresAt : Option Nat) : Parts :=
  { (parts.resolveOrDerive c token).1 with
    bearerToken := some token, requestToken := some ⟨token, none, expiresAt⟩ }

/-- The table after a claim and what it wrote. -/
def settled (b : SessionBindings) (now : Nat) (sessionId identity : String) : SessionBindings :=
  if (b.claim now now sessionId identity).spawned then
    (b.claim now now sessionId identity).store.writeThrough sessionId identity
  else (b.claim now now sessionId identity).store

/-- What the layer does with a request: it refuses it and has changed nothing, or
the bearer is valid, and where the protocol named the session the claim decides. -/
inductive Does (c : Codec) (env : AuthSurroundings) (s : AuthState) (parts : Parts) :
    Handled → Prop where
  | refuse (response : Unauthorized) : Does c env s parts ⟨s, .refused response⟩
  | derive (token : String) (expiresAt : Option Nat) (session : Option String)
      (hbearer : bearerToken parts.request = some token)
      (hvalid : env.validateBearerViaJwks token = some expiresAt)
      (hnamed : containsKey parts.headers MCP_SESSION_ID_HEADER = false) :
      Does c env s parts ⟨s, .next (passed c parts token expiresAt) session⟩
  | accept (token : String) (expiresAt : Option Nat) (session : Option String)
      (hbearer : bearerToken parts.request = some token)
      (hvalid : env.validateBearerViaJwks token = some expiresAt)
      (hnamed : containsKey parts.headers MCP_SESSION_ID_HEADER = true)
      (haccepted : (s.bindings.claim env.clock.now env.clock.now (parts.resolveOrDerive c token).2
        (credentialSessionKey c token)).accepted = true) :
      Does c env s parts
        ⟨{ s with
            bindings := (settled s.bindings env.clock.now (parts.resolveOrDerive c token).2
              (credentialSessionKey c token)) },
          .next (passed c parts token expiresAt) session⟩
  | reject (token : String) (response : Unauthorized)
      (hbearer : bearerToken parts.request = some token)
      (haccepted : (s.bindings.claim env.clock.now env.clock.now (parts.resolveOrDerive c token).2
        (credentialSessionKey c token)).accepted = false) :
      Does c env s parts
        ⟨{ s with
            bindings := (settled s.bindings env.clock.now (parts.resolveOrDerive c token).2
              (credentialSessionKey c token)) }, .refused response⟩

theorem handled_does (c : Codec) (publicUrl : String) (hmode : config.tokenMode = .resourceServer)
    (env : AuthSurroundings) (s : AuthState) (headers : HeaderMap) :
    Does c env s (arrived headers)
      (wrapAuthMiddleware c (.oauth config) publicUrl env s headers) := by
  show Does c env s (arrived headers) (bearerAuth c env s (arrived headers) _ config.tokenMode)
  rw [hmode, bearerAuth]
  split
  · exact .refuse _
  · next token hbearer =>
    show Does c env s (arrived headers) (resourceServerAuth c env s (arrived headers) _ token)
    unfold resourceServerAuth
    split
    · exact .refuse _
    · next expiresAt hvalid =>
      dsimp only
      split
      · next hnamed =>
        by_cases haccepted : (s.bindings.claim env.clock.now env.clock.now
            ((arrived headers).resolveOrDerive c token).2
            (credentialSessionKey c token)).accepted = true
        · rw [if_pos haccepted]
          exact .accept token expiresAt _ hbearer hvalid hnamed haccepted
        · rw [if_neg haccepted]
          exact .reject token _ hbearer (Bool.not_eq_true _ ▸ haccepted)
      · next hnamed => exact .derive token expiresAt _ hbearer hvalid (by simpa using hnamed)

/-- What is true of a request that was passed on. -/
structure Proper (c : Codec) (r : Served) : Prop where
  bearer : bearerToken (arrived r.headers).request = some r.token
  valid : ∃ expiresAt, r.env.validateBearerViaJwks r.token = some expiresAt ∧
    r.parts = passed c (arrived r.headers) r.token expiresAt

theorem proper_passed {token : String} {expiresAt : Option Nat} {time : Nat}
    (hbearer : bearerToken (arrived headers).request = some token)
    (hvalid : env.validateBearerViaJwks token = some expiresAt) :
    Proper c ⟨env, headers, passed c (arrived headers) token expiresAt, time⟩ :=
  ⟨hbearer, expiresAt, hvalid, rfl⟩

/-- The handler's session is the one the layer worked under. -/
theorem Proper.session_eq {r : Served} (h : Proper c r) :
    r.session = ((arrived r.headers).resolveOrDerive c r.token).2 := by
  obtain ⟨expiresAt, -, hparts⟩ := h.valid
  have hstripped := Parts.get_stripFrameworkSessionHeader (Parts.ofHeaders r.headers)
  rw [Served.session, hparts]
  exact (Parts.sessionId_congr rfl).trans (Parts.sessionId_resolveOrDerive r.token hstripped)

/-- Handlers see the validated bearer, whatever any store holds. -/
theorem Proper.resolveToken {r : Served} (h : Proper c r) :
    ∃ expiresAt, r.env.validateBearerViaJwks r.token = some expiresAt ∧
      ∀ (env : Surroundings) (store : TokenStore),
        McpFramework.resolveToken env store (some r.parts) =
          ⟨store, some ⟨r.token, none, expiresAt⟩, []⟩ := by
  obtain ⟨expiresAt, hvalid, hparts⟩ := h.valid
  refine ⟨expiresAt, hvalid, fun env store => ?_⟩
  have htoken : r.parts.requestToken = some ⟨r.token, none, expiresAt⟩ := by
    rw [hparts]
    rfl
  rw [McpFramework.resolveToken, Option.bind_some, htoken]

end Request

/-! ## Runs of the binding table -/

section Simulation

variable {c : Codec} {config : OAuthConfig} {publicUrl : String} {st st' : State}
  {b : BindingLifetime.State}

/-- The claim that let a request in. -/
def claimOf (c : Codec) (r : Served) : BindingLifetime.Claim :=
  { session := r.session, identity := r.identity c, start := r.time, finish := r.time
    accepted := true }

/-- The binding table is that of a run of claims, and every request that the
protocol named a session for was let in by one of them. -/
structure Simulates (c : Codec) (st : State) (b : BindingLifetime.State) : Prop where
  store : b.store = st.auth.bindings
  now : b.now = st.now
  writes : b.writes = []
  log : ((st.log.filter Served.named).map (claimOf c)).Sublist b.log

theorem decidedAt_claim (t : SessionBindings) (now : Nat) (sessionId identity : String) :
    (t.claim now now sessionId identity).decidedAt = now := by
  rcases BindingLifetime.claim_cases t now now sessionId identity with
    ⟨-, hr⟩ | ⟨-, hr⟩ | ⟨-, peer, -, hr⟩ | ⟨-, -, hr⟩ <;> rw [hr]

/-- A claim and its write-through, one after the other. -/
theorem reach_settled (hwrites : b.writes = []) (httl : 0 < b.store.ttl) {sessionId : String}
    (identity : String) (hroom : b.store.hasRoom b.now sessionId = true) :
    BindingLifetime.system.Reach (fun b l => BindingLifetime.calm b l = true) b
      { store := settled b.store b.now sessionId identity, now := b.now, writes := []
        log := { session := sessionId, identity := identity, start := b.now, finish := b.now
                 accepted := (b.store.claim b.now b.now sessionId identity).accepted } ::
          b.log } := by
  have httl' : (b.store.claim b.now b.now sessionId identity).store.ttl = b.store.ttl :=
    BindingLifetime.afterClaim_ttl b sessionId identity 0
  have hafter : BindingLifetime.afterClaim b sessionId identity 0 =
      { store := (b.store.claim b.now b.now sessionId identity).store, now := b.now
        writes := if (b.store.claim b.now b.now sessionId identity).spawned then
            [{ session := sessionId, identity := identity, spawnedAt := b.now }] else []
        log := { session := sessionId, identity := identity, start := b.now, finish := b.now
                 accepted := (b.store.claim b.now b.now sessionId identity).accepted } ::
          b.log } := by
    simp [BindingLifetime.afterClaim, hwrites, decidedAt_claim]
  have hclaim : BindingLifetime.system.Reach (fun b l => BindingLifetime.calm b l = true) b
      (BindingLifetime.afterClaim b sessionId identity 0) :=
    .step (l := .claim sessionId identity 0) .refl hroom rfl
  rw [hafter] at hclaim
  rw [settled]
  split
  · next hspawned =>
    rw [if_pos hspawned] at hclaim
    refine .step (l := .land 0) hclaim ?_ rfl
    show decide (b.now < b.now + _) = true
    rw [httl']
    exact decide_eq_true (by omega)
  · next hspawned =>
    rw [if_neg hspawned] at hclaim
    exact hclaim

/-- What every state of a run has. -/
structure Kept (c : Codec) (store : TokenStore) (opaques : OpaqueGrants) (st : State) : Prop where
  store : st.auth.store = store
  opaques : st.auth.opaques = opaques
  log : ∀ r ∈ st.log, Proper c r

theorem Kept.step {store : TokenStore} {opaques : OpaqueGrants} {l : Label}
    (hmode : config.tokenMode = .resourceServer) (h : Kept c store opaques st)
    (hs : step c config publicUrl st l = some st') : Kept c store opaques st' := by
  cases l with
  | tick d =>
    cases hs
    exact ⟨h.store, h.opaques, h.log⟩
  | lapse session =>
    cases hs
    exact ⟨h.store, h.opaques, h.log⟩
  | request env headers =>
    cases hs
    have hdoes := handled_does c publicUrl hmode (atTime env st.now) st.auth headers
    rw [afterRequest]
    generalize wrapAuthMiddleware c (.oauth config) publicUrl (atTime env st.now) st.auth
      headers = r at hdoes
    cases hdoes with
    | refuse response => exact ⟨h.store, h.opaques, h.log⟩
    | reject token response hbearer haccepted => exact ⟨h.store, h.opaques, h.log⟩
    | derive token expiresAt session hbearer hvalid hnamed =>
      exact ⟨h.store, h.opaques, List.forall_mem_cons.mpr ⟨proper_passed hbearer hvalid, h.log⟩⟩
    | accept token expiresAt session hbearer hvalid hnamed haccepted =>
      exact ⟨h.store, h.opaques, List.forall_mem_cons.mpr ⟨proper_passed hbearer hvalid, h.log⟩⟩

/-- Every step is some steps of the binding table, or none. -/
theorem Simulates.step {l : Label} (hmode : config.tokenMode = .resourceServer)
    (h : Simulates c st b) (httl : 0 < b.store.ttl) (hcalm : calm c st l = true)
    (hs : step c config publicUrl st l = some st') :
    ∃ b', BindingLifetime.system.Reach (fun b l => BindingLifetime.calm b l = true) b b' ∧
      Simulates c st' b' := by
  cases l with
  | tick d =>
    cases hs
    refine ⟨{ b with now := b.now + d }, .step (l := .tick d) .refl rfl rfl, h.store, ?_, h.writes,
      h.log⟩
    show b.now + d = st.now + d
    rw [h.now]
  | lapse session =>
    cases hs
    refine ⟨{ b with store := b.store.lapse session }, .step (l := .lapse session) .refl rfl rfl,
      ?_, h.now, h.writes, h.log⟩
    show b.store.lapse session = st.auth.bindings.lapse session
    rw [h.store]
  | request env headers =>
    cases hs
    have hdoes := handled_does c publicUrl hmode (atTime env st.now) st.auth headers
    rw [afterRequest]
    generalize wrapAuthMiddleware c (.oauth config) publicUrl (atTime env st.now) st.auth
      headers = r at hdoes
    -- the two steps of a claim, with whatever answer
    have hclaim : ∀ token, bearerToken (arrived headers).request = some token →
        BindingLifetime.system.Reach (fun b l => BindingLifetime.calm b l = true) b
          { store := settled st.auth.bindings st.now ((arrived headers).resolveOrDerive c token).2
              (credentialSessionKey c token)
            now := st.now, writes := []
            log := { session := ((arrived headers).resolveOrDerive c token).2
                     identity := credentialSessionKey c token, start := st.now, finish := st.now
                     accepted := (st.auth.bindings.claim st.now st.now
                       ((arrived headers).resolveOrDerive c token).2
                       (credentialSessionKey c token)).accepted } :: b.log } := by
      intro token hbearer
      have hroom : b.store.hasRoom b.now ((arrived headers).resolveOrDerive c token).2 = true := by
        rw [calm, hbearer] at hcalm
        rw [h.store, h.now]
        exact hcalm
      have hreach := reach_settled h.writes httl (credentialSessionKey c token) hroom
      rw [h.store, h.now] at hreach
      exact hreach
    cases hdoes with
    | refuse response => exact ⟨b, .refl, h.store, h.now, h.writes, h.log⟩
    | derive token expiresAt session hbearer hvalid hnamed =>
      refine ⟨b, .refl, h.store, h.now, h.writes, ?_⟩
      show ((List.filter _ (_ :: st.log)).map _).Sublist b.log
      rw [List.filter_cons_of_neg (by
        rw [Served.named, hnamed]
        exact Bool.false_ne_true)]
      exact h.log
    | reject token response hbearer haccepted =>
      exact ⟨_, hclaim token hbearer, rfl, rfl, rfl, h.log.cons _⟩
    | accept token expiresAt session hbearer hvalid hnamed haccepted =>
      refine ⟨_, hclaim token hbearer, rfl, rfl, rfl, ?_⟩
      have hproper : Proper c ⟨env, headers, passed c (arrived headers) token expiresAt, st.now⟩ :=
        proper_passed hbearer hvalid
      show ((List.filter _ (_ :: st.log)).map _).Sublist (_ :: b.log)
      rw [List.filter_cons_of_pos (by exact hnamed), List.map_cons]
      have hhead : claimOf c ⟨env, headers, passed c (arrived headers) token expiresAt, st.now⟩ =
          { session := ((arrived headers).resolveOrDerive c token).2
            identity := credentialSessionKey c token, start := st.now, finish := st.now
            accepted := (st.auth.bindings.claim st.now st.now
              ((arrived headers).resolveOrDerive c token).2
              (credentialSessionKey c token)).accepted } := by
        have hsession := hproper.session_eq
        rw [claimOf, hsession]
        exact congrArg _ haccepted.symm
      rw [hhead]
      exact h.log.cons_cons _

end Simulation

/-! ## One session, one identity -/

section Isolation

variable {c : Codec} {config : OAuthConfig} {publicUrl : String} {store : TokenStore}
  {opaques : OpaqueGrants} {ttl maxEntries now : Nat}
  {persistence : Option (HashMap String StoredBytes)} {st : State}

/-- The protocol named for one request what the credential of another derives,
and that other was named no session. -/
def NamesDerived (c : Codec) (r other : Served) : Prop :=
  r.supplied = some (other.identity c) ∧ other.named = false

/-- Requests of one session, the later within `w` of the earlier, are of one
identity, unless a session was named that is derived from a credential. -/
def Isolated (c : Codec) (w : Nat) (log : List Served) : Prop :=
  log.Pairwise fun later earlier =>
    later.session = earlier.session → later.time < earlier.time + w →
      later.identity c = earlier.identity c ∨ NamesDerived c later earlier ∨
        NamesDerived c earlier later

end Isolation

section Runs

/-- No credential is a JWT, and a digest is a length. -/
def lengthCodec : Codec := ⟨fun _ => none, fun s => [s.length]⟩

def resourceServerConfig : OAuthConfig :=
  { clientId := "mcp", clientSecret := none, issuerUrl := "http://kc", redirectUrl := "http://cb"
    scopes := [], tokenMode := .resourceServer, unknownTokenValidation := .introspection
    expectedAudiences := ["mcp"], allowedRedirectUris := [] }

def trusting : AuthSurroundings where
  clock := ⟨0, 0⟩
  validateUnknownBearer _ := none
  endpoint _ := none
  validateBearerViaJwks _ := some none
  decodeBasic _ := none

def bearerHeaders (bearer : String) (session : Option String) : HeaderMap :=
  (AUTHORIZATION_HEADER, .text bearer) ::
    (session.map fun sid => (MCP_SESSION_ID_HEADER, HeaderValue.text sid)).toList

def started : State := init (TokenStore.new false none) (OpaqueGrants.empty false) 10 8 0 none

/-- The table alone does not keep a derived session: Bob names the one that Alice's
credential derives, before a protocol session of that name exists. -/
theorem derived_session_can_be_named :
    ∃ st, (system lengthCodec resourceServerConfig "http://localhost").Reach
        (fun st l => calm lengthCodec st l = true) started st ∧
      st.log.map (fun r => (r.session, r.token)) = [("cred-05", "bo"), ("cred-05", "alice")] := by
  obtain ⟨st, hr, hlog⟩ := System.exists_reach_of_run
    (S := system lengthCodec resourceServerConfig "http://localhost")
    (G := fun st l => calm lengthCodec st l = true) (s := started)
    (w := [.request trusting (bearerHeaders "Bearer alice" none),
      .request trusting (bearerHeaders "Bearer bo" (some "cred-05"))])
    (p := fun st => decide (st.log.map (fun r => (r.session, r.token)) =
      [("cred-05", "bo"), ("cred-05", "alice")])) (by decide)
  exact ⟨st, hr, of_decide_eq_true hlog⟩

end Runs

end McpFramework.ResourceServer
