import McpFramework.Auth.Middleware
import McpFramework.Lib.Transition

/-!
# Auth — PassthroughHistory

The states a Passthrough server's token store goes through: logins, token
exchanges and bearers, with whatever the surroundings answer, in any order.

On one instance whose backend loses nothing but records past their TTL, memory
and backend never disagree on a session's tokens (`Coherent`).
-/

namespace McpFramework

open Lib

variable (c : Codec)

/-- The part of `passthrough_token_handler` after a successful exchange. `spent`
is the refresh token of a `refresh_token` grant; the grant it belonged to is
retired before the new one is stored. -/
def passthroughTokenHandler (st : TokenStore) (clock : Clock) (spent : Option String)
    (response : TokenResponse) : TokenStore :=
  match response.accessToken with
  | none => st
  | some accessToken =>
    let sessionKey := credentialSessionKey c accessToken
    let st :=
      match spent with
      | some spent =>
        let r := st.resolveGrantRefresh c spent
        let st :=
          match r.2 with
          | some oldKey => if oldKey ≠ sessionKey then r.1.removeToken oldKey else r.1
          | none => r.1
        st.removeGrantRefresh c spent
      | none => st
    let st := st.storeToken clock sessionKey
      { accessToken := accessToken
        refreshToken := response.refreshToken
        expiresAt := response.expiresIn.map fun secs => clock.now + Duration.fromSecs secs }
    match response.refreshToken with
    | some refreshToken => st.indexGrantRefresh c refreshToken sessionKey
    | none => st

namespace PassthroughHistory

structure State where
  clock : Clock
  store : TokenStore
deriving DecidableEq

inductive Event where
  /-- `d` passes, after which the system clock may read anything. -/
  | tick (d unix : Nat)
  /-- `store_token`, as the login callback calls it. -/
  | login (sessionId : String) (token : StoredToken)
  /-- `remove_token`. -/
  | logout (sessionId : String)
  /-- A token request that the authorization server answered. -/
  | exchange (spent : Option String) (response : TokenResponse)
  /-- A request with a bearer. -/
  | bearer (validateUnknownBearer : String → Option (Option Nat)) (endpoint : Endpoint)
      (request : Request)
  /-- `get_token`, as a tool handler's `resolve_token` calls it. -/
  | resolve (sessionId : String) (endpoint : Endpoint)
  /-- `has_valid_token`. -/
  | status (sessionId : String)
  | purge
  /-- The backend drops a record; those with a refresh token have no TTL. -/
  | lapse (sessionId : String)

/-- What `lapse` does to the backend. -/
def lapse (st : TokenStore) (sessionId : String) : TokenStore :=
  match st.record sessionId with
  | some r =>
    if r.refreshToken.isNone then
      st.updateBackend fun b => { b with tokens := b.tokens.remove sessionId }
    else st
  | none => st

def step (s : State) : Event → Option State
  | .tick d unix => some { s with clock := ⟨s.clock.now + d, unix⟩ }
  | .login sessionId token => some { s with store := s.store.storeToken s.clock sessionId token }
  | .logout sessionId => some { s with store := s.store.removeToken sessionId }
  | .exchange spent response =>
    some { s with store := passthroughTokenHandler c s.store s.clock spent response }
  | .bearer validateUnknownBearer endpoint request =>
    some { s with
      store := (bearerAuthMiddleware c ⟨s.clock, validateUnknownBearer, endpoint⟩ s.store
        request).store }
  | .resolve sessionId endpoint =>
    some { s with store := (s.store.getToken s.clock endpoint sessionId).store }
  | .status sessionId => some { s with store := (s.store.getTokenRaw s.clock sessionId).1 }
  | .purge => some { s with store := s.store.purgeExpired s.clock.now }
  | .lapse sessionId => some { s with store := lapse s.store sessionId }

def system : System State Event := ⟨step c⟩

/-- Reached from a started server, over whatever an earlier run persisted. -/
def Reachable (s : State) : Prop :=
  ∃ clock refreshConfig persistence,
    (system c).Reach (fun _ _ => True) ⟨clock, TokenStore.new refreshConfig persistence⟩ s

end PassthroughHistory

/-! ## Memory and backend agree -/

namespace TokenStore

/-- A token in memory is the one of the session's record, where there is one. -/
def Coherent (st : TokenStore) : Prop :=
  ∀ k token r, st.tokens.get? k = some token → st.record k = some r →
    r.accessToken = token.accessToken ∧ r.refreshToken = token.refreshToken

variable {st : TokenStore} {clock : Clock} {k k' : String}

theorem record_updateBackend (f : TokenBackend → TokenBackend) :
    (st.updateBackend f).record k = st.persistence.bind fun b => (f b).tokens.get? k := by
  cases hp : st.persistence <;> simp [record, updateBackend, hp]

theorem record_storeToken (token : StoredToken) :
    (st.storeToken clock k token).record k' =
      if k' = k then st.persistence.map fun _ => PersistedToken.fromStored clock token
      else st.record k' := by
  unfold TokenStore.storeToken
  dsimp only
  rw [record_updateBackend]
  simp only [record]
  by_cases hk : k' = k
  · subst hk
    cases st.persistence <;> simp
  · cases st.persistence <;> simp [HashMap.get?_insert, hk]

theorem record_removeToken :
    (st.removeToken k).record k' = if k' = k then none else st.record k' := by
  unfold TokenStore.removeToken
  dsimp only
  rw [record_updateBackend]
  simp only [record]
  by_cases hk : k' = k
  · subst hk
    cases st.persistence <;> simp
  · cases st.persistence <;> simp [HashMap.get?_remove, hk]

theorem Coherent.storeToken (h : Coherent st) (clock : Clock) (k : String) (token : StoredToken) :
    Coherent (st.storeToken clock k token) := by
  intro k' token' r ht hr
  rw [record_storeToken] at hr
  have ht' : (if k' = k then some token else st.tokens.get? k') = some token' := by
    rw [← HashMap.get?_insert]
    exact ht
  by_cases hk : k' = k
  · rw [if_pos hk] at hr ht'
    cases ht'
    obtain ⟨b, -, rfl⟩ := Option.map_eq_some_iff.mp hr
    exact ⟨rfl, rfl⟩
  · rw [if_neg hk] at hr ht'
    exact h k' token' r ht' hr

theorem Coherent.removeToken (h : Coherent st) (k : String) : Coherent (st.removeToken k) := by
  intro k' token r ht hr
  rw [record_removeToken] at hr
  by_cases hk : k' = k
  · rw [if_pos hk] at hr
    cases hr
  · rw [if_neg hk] at hr
    have ht' : (st.tokens.remove k).get? k' = some token := ht
    rw [HashMap.get?_remove, if_neg hk] at ht'
    exact h k' token r ht' hr

/-- Both copies read the same record. -/
theorem load_coherent {token : StoredToken} {r : PersistedToken}
    (ht : st.loadTokenFromBackend clock k = some token) (hr : st.record k = some r) :
    r.accessToken = token.accessToken ∧ r.refreshToken = token.refreshToken := by
  simp only [loadTokenFromBackend, hr, Option.map_some, Option.some.injEq] at ht
  rw [← ht]
  exact ⟨rfl, rfl⟩

theorem Coherent.getTokenRaw (h : Coherent st) (clock : Clock) (k : String) :
    Coherent (st.getTokenRaw clock k).1 := by
  intro k' token r ht hr
  rw [getTokenRaw_tokens_get?] at ht
  rw [record_congr getTokenRaw_persistence] at hr
  by_cases hk : k' = k
  · subst hk
    rw [if_pos rfl, lookup] at ht
    cases hmem : st.tokens.get? k' with
    | some token' =>
      rw [hmem] at ht
      cases ht
      exact h k' token r hmem hr
    | none =>
      rw [hmem] at ht
      exact load_coherent ht hr
  · rw [if_neg hk] at ht
    exact h k' token r ht hr

theorem Coherent.adoptPersistedToken (h : Coherent st) (clock : Clock) (k : String) :
    Coherent (st.adoptPersistedToken clock k).1 := by
  unfold TokenStore.adoptPersistedToken
  split
  · rename_i token hload
    split
    · exact h
    · intro k' token' r ht hr
      have ht' : (st.tokens.insert k token).get? k' = some token' := ht
      rw [HashMap.get?_insert] at ht'
      by_cases hk : k' = k
      · subst hk
        rw [if_pos rfl] at ht'
        cases ht'
        exact load_coherent hload hr
      · rw [if_neg hk] at ht'
        exact h k' token' r ht' hr
  · exact h

theorem Coherent.refreshToken (h : Coherent st) (clock : Clock) (endpoint : Endpoint)
    (k : String) : Coherent (st.refreshToken clock endpoint k).store := by
  have hraw := h.getTokenRaw clock k
  unfold TokenStore.refreshToken
  dsimp only
  split
  · exact hraw
  · split
    · split
      · exact hraw.storeToken clock k _
      · exact hraw
    · exact hraw

theorem Coherent.refreshWithDistributedLock (h : Coherent st) (clock : Clock)
    (endpoint : Endpoint) (k : String) :
    Coherent (st.refreshWithDistributedLock clock endpoint k).store := by
  have hadopt := h.adoptPersistedToken clock k
  unfold TokenStore.refreshWithDistributedLock
  split
  · exact h.refreshToken clock endpoint k
  · split
    · rename_i heq
      rw [heq] at hadopt
      exact hadopt
    · rename_i heq
      rw [heq] at hadopt
      exact hadopt.refreshToken clock endpoint k

theorem Coherent.getToken (h : Coherent st) (clock : Clock) (endpoint : Endpoint) (k : String) :
    Coherent (st.getToken clock endpoint k).store := by
  have hraw := h.getTokenRaw clock k
  unfold TokenStore.getToken
  split
  · rename_i heq
    rw [heq] at hraw
    exact hraw
  · rename_i heq
    rw [heq] at hraw
    split
    · split
      · exact hraw.refreshWithDistributedLock clock endpoint k
      · exact hraw
    · exact hraw

/-- The index of spent refresh tokens is none of the tokens' business. -/
theorem Coherent.of_tokens_eq {st' : TokenStore} (h : Coherent st)
    (ht : st'.tokens = st.tokens) (hr : ∀ k, st'.record k = st.record k) : Coherent st' := by
  intro k token r htoken hrecord
  rw [ht] at htoken
  rw [hr] at hrecord
  exact h k token r htoken hrecord

theorem Coherent.indexGrantRefresh (h : Coherent st) (c : Codec) (refreshToken key : String) :
    Coherent (st.indexGrantRefresh c refreshToken key) := by
  refine h.of_tokens_eq rfl fun k => ?_
  unfold TokenStore.indexGrantRefresh
  dsimp only
  rw [record_updateBackend]
  rfl

theorem Coherent.removeGrantRefresh (h : Coherent st) (c : Codec) (refreshToken : String) :
    Coherent (st.removeGrantRefresh c refreshToken) := by
  refine h.of_tokens_eq rfl fun k => ?_
  unfold TokenStore.removeGrantRefresh
  dsimp only
  rw [record_updateBackend]
  rfl

theorem Coherent.resolveGrantRefresh (h : Coherent st) (c : Codec) (refreshToken : String) :
    Coherent (st.resolveGrantRefresh c refreshToken).1 := by
  unfold TokenStore.resolveGrantRefresh
  dsimp only
  split
  · exact h
  · split
    · exact h.of_tokens_eq rfl fun _ => rfl
    · exact h

theorem Coherent.purgeExpired (h : Coherent st) (now : Nat) : Coherent (st.purgeExpired now) := by
  have hfold : ∀ (keys : List String) (st : TokenStore), Coherent st →
      Coherent (keys.foldl TokenStore.removeToken st) := by
    intro keys
    induction keys with
    | nil => exact fun st h => h
    | cons key keys ih => exact fun st h => ih _ (h.removeToken key)
  exact hfold _ st h

theorem Coherent.lapse (h : Coherent st) (k : String) :
    Coherent (PassthroughHistory.lapse st k) := by
  unfold PassthroughHistory.lapse
  split
  · split
    · intro k' token r ht hr
      rw [record_updateBackend] at hr
      by_cases hk : k' = k
      · subst hk
        cases hp : st.persistence <;> simp [hp] at hr
      · refine h k' token r ht ?_
        cases hp : st.persistence with
        | none => simp [hp] at hr
        | some b =>
          rw [record, hp]
          rw [hp] at hr
          simpa [HashMap.get?_remove, hk] using hr
    · exact h
  · exact h

end TokenStore

/-! ## Every reachable store is coherent -/

open TokenStore

variable {c} {st : TokenStore}

theorem TokenStore.Coherent.passthroughTokenHandler (h : Coherent st) (clock : Clock)
    (spent : Option String) (response : TokenResponse) :
    Coherent (passthroughTokenHandler c st clock spent response) := by
  unfold McpFramework.passthroughTokenHandler
  split
  · exact h
  · rename_i accessToken _
    have hspent : Coherent (match spent with
        | some spent =>
          (match (st.resolveGrantRefresh c spent).2 with
            | some oldKey =>
              if oldKey ≠ credentialSessionKey c accessToken then
                (st.resolveGrantRefresh c spent).1.removeToken oldKey
              else (st.resolveGrantRefresh c spent).1
            | none => (st.resolveGrantRefresh c spent).1).removeGrantRefresh c spent
        | none => st) := by
      cases spent with
      | none => exact h
      | some spent =>
        refine Coherent.removeGrantRefresh ?_ c spent
        have hresolve := h.resolveGrantRefresh c spent
        split
        · split
          · exact hresolve.removeToken _
          · exact hresolve
        · exact hresolve
    dsimp only
    split
    · exact (hspent.storeToken clock _ _).indexGrantRefresh c _ _
    · exact hspent.storeToken clock _ _

theorem TokenStore.Coherent.sight (h : Coherent st) (clock : Clock) (sessionId token : String) :
    Coherent (sight c st clock sessionId token).1 := by
  unfold McpFramework.sight
  dsimp only
  split
  · exact (h.getTokenRaw clock sessionId).getTokenRaw clock _
  · exact h.getTokenRaw clock sessionId

theorem TokenStore.Coherent.finish (h : Coherent st) (env : Surroundings) (expired : Bool)
    (sessionId token : String) : Coherent (finish env st expired sessionId token).store := by
  unfold McpFramework.finish
  split
  · have hget := h.getToken env.clock env.endpoint sessionId
    dsimp only
    split <;> exact hget
  · exact h

theorem TokenStore.Coherent.serve (h : Coherent st) (env : Surroundings) (s : Sighting)
    (sessionId token : String) (expiry : Option Nat) :
    Coherent (serve c env st s sessionId token expiry).store := by
  have hwrite : Coherent (writeBack c env st s sessionId token expiry) := by
    unfold writeBack
    split
    · exact h.storeToken _ _ _
    · exact h
  unfold McpFramework.serve
  dsimp only
  split
  · exact h
  · exact hwrite.finish _ _ _ _

theorem TokenStore.Coherent.bearerAuthMiddleware (h : Coherent st) (env : Surroundings)
    (request : Request) : Coherent (bearerAuthMiddleware c env st request).store := by
  unfold McpFramework.bearerAuthMiddleware
  split
  · exact h
  · rename_i token _
    have hsight := h.sight (c := c) env.clock (resolveOrDeriveSessionId c request token) token
    dsimp only
    split
    · exact hsight
    · split
      · exact hsight
      · exact hsight.serve env _ _ _ _

theorem PassthroughHistory.coherent {s : PassthroughHistory.State}
    (hr : PassthroughHistory.Reachable c s) : Coherent s.store := by
  obtain ⟨clock, refreshConfig, persistence, hr⟩ := hr
  refine hr.invariant (I := fun s => Coherent s.store) ?_ ?_
  · intro k token r ht
    simp [TokenStore.new] at ht
  · intro s e s' h _ hs
    cases e with
    | tick d unix => cases hs; exact h
    | login sessionId token => cases hs; exact h.storeToken _ _ _
    | logout sessionId => cases hs; exact h.removeToken _
    | exchange spent response => cases hs; exact h.passthroughTokenHandler _ _ _
    | bearer validate endpoint request => cases hs; exact h.bearerAuthMiddleware _ _
    | resolve sessionId endpoint => cases hs; exact h.getToken _ _ _
    | status sessionId => cases hs; exact h.getTokenRaw _ _
    | purge => cases hs; exact h.purgeExpired _
    | lapse sessionId => cases hs; exact h.lapse _

end McpFramework
