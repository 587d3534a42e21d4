import McpFramework.Auth.Credential
import McpFramework.Lib.HashMap

/-!
# Auth — TokenStore

Tokens in memory and in the backend (`auth/store.rs`), each operation run to
its end before the next one starts. The interleavings of their steps are the
business of the token protocol.

`decoded_claims` is the output of a host-supplied decoder that no operation
reads, and is left out. A persisted record that does not parse reads as an
absent one.
-/

namespace McpFramework

open Lib

/-! ## Tokens -/

structure StoredToken where
  accessToken : String
  refreshToken : Option String
  expiresAt : Option Nat
deriving DecidableEq, Repr

/-- Whether the token is expired, with the 30 second buffer. A token without
an expiry does not expire. -/
def StoredToken.isExpired (token : StoredToken) (now : Nat) : Bool :=
  match token.expiresAt with
  | some expiresAt => decide (now + TOKEN_EXPIRY_BUFFER > expiresAt)
  | none => false

/-- What is expired stays so. -/
theorem StoredToken.isExpired_mono {token : StoredToken} {now now' : Nat} (h : now ≤ now')
    (he : token.isExpired now = true) : token.isExpired now' = true := by
  unfold StoredToken.isExpired at he ⊢
  cases hx : token.expiresAt with
  | none =>
    rw [hx] at he
    cases he
  | some expiresAt =>
    simp only [hx, decide_eq_true_eq] at he ⊢
    omega

/-- The persisted form. `expiresInSecs` is the legacy format, read and never
written. -/
structure PersistedToken where
  accessToken : String
  refreshToken : Option String
  expiresAtUnixMs : Option Nat
  expiresInSecs : Option Nat
deriving DecidableEq, Repr

def PersistedToken.fromStored (clock : Clock) (token : StoredToken) : PersistedToken :=
  { accessToken := token.accessToken
    refreshToken := token.refreshToken
    expiresAtUnixMs := token.expiresAt.map (instantToUnixMillis clock)
    expiresInSecs := none }

def PersistedToken.intoStored (clock : Clock) (token : PersistedToken) : StoredToken :=
  { accessToken := token.accessToken
    refreshToken := token.refreshToken
    expiresAt :=
      match token.expiresAtUnixMs with
      | some deadline => some (clock.now + remainingUntilUnixMillis clock deadline)
      | none => token.expiresInSecs.map fun secs => clock.now + Duration.fromSecs secs }

/-- A token as it comes back from the backend at the instant it was persisted. -/
def StoredToken.reload (token : StoredToken) (clock : Clock) : StoredToken :=
  (PersistedToken.fromStored clock token).intoStored clock

/-! ## The store -/

/-- The namespaces the token operations use. -/
structure TokenBackend where
  tokens : HashMap String PersistedToken
  grantRefresh : HashMap String String
deriving DecidableEq

/-- `refreshConfig` says whether a refresh configuration is set. -/
structure TokenStore where
  tokens : HashMap String StoredToken
  grantRefreshIndex : HashMap String String
  refreshConfig : Bool
  persistence : Option TokenBackend
deriving DecidableEq

/-- What the token endpoint's JSON answer is read for. -/
structure TokenResponse where
  accessToken : Option String
  refreshToken : Option String
  expiresIn : Option Nat
deriving DecidableEq, Repr

/-- The answer to a submitted refresh token; `none` stands for a transport
error, a status that is no success and a body that does not parse. -/
abbrev Endpoint := String → Option TokenResponse

/-- What an operation that may refresh leaves behind: the store, the token it
returns, and the refresh tokens it submitted. -/
structure Got where
  store : TokenStore
  token : Option StoredToken
  submitted : List String
deriving DecidableEq

namespace TokenStore

def new (refreshConfig : Bool) (persistence : Option TokenBackend) : TokenStore :=
  { tokens := HashMap.empty, grantRefreshIndex := HashMap.empty,
    refreshConfig := refreshConfig, persistence := persistence }

def updateBackend (st : TokenStore) (f : TokenBackend → TokenBackend) : TokenStore :=
  { st with persistence := st.persistence.map f }

def storeToken (st : TokenStore) (clock : Clock) (sessionId : String) (token : StoredToken) :
    TokenStore :=
  let st := { st with tokens := st.tokens.insert sessionId token }
  st.updateBackend fun b =>
    { b with tokens := b.tokens.insert sessionId (PersistedToken.fromStored clock token) }

/-- The persisted record of a session. -/
def record (st : TokenStore) (sessionId : String) : Option PersistedToken :=
  st.persistence.bind fun b => b.tokens.get? sessionId

def loadTokenFromBackend (st : TokenStore) (clock : Clock) (sessionId : String) :
    Option StoredToken :=
  (st.record sessionId).map (PersistedToken.intoStored clock)

/-- Memory first, then the backend, whose token is written back to memory. -/
def getTokenRaw (st : TokenStore) (clock : Clock) (sessionId : String) :
    TokenStore × Option StoredToken :=
  match st.tokens.get? sessionId with
  | some token => (st, some token)
  | none =>
    match st.loadTokenFromBackend clock sessionId with
    | some token => ({ st with tokens := st.tokens.orInsert sessionId token }, some token)
    | none => (st, none)

def peekToken (st : TokenStore) (clock : Clock) (sessionId : String) :
    TokenStore × Option StoredToken :=
  st.getTokenRaw clock sessionId

/-- The token a successful answer is stored as: a refresh token that was not
rotated is kept. -/
def refreshed (clock : Clock) (refreshToken : String) (response : TokenResponse) :
    Option StoredToken :=
  response.accessToken.map fun accessToken =>
    { accessToken := accessToken
      refreshToken := some (response.refreshToken.getD refreshToken)
      expiresAt := response.expiresIn.map fun secs => clock.now + Duration.fromSecs secs }

def refreshToken (st : TokenStore) (clock : Clock) (endpoint : Endpoint) (sessionId : String) :
    Got :=
  let r := st.getTokenRaw clock sessionId
  match r.2.bind (·.refreshToken) with
  | none => ⟨r.1, none, []⟩
  | some refreshToken =>
    if r.1.refreshConfig then
      match (endpoint refreshToken).bind (refreshed clock refreshToken) with
      | some newToken => ⟨r.1.storeToken clock sessionId newToken, some newToken, [refreshToken]⟩
      | none => ⟨r.1, none, [refreshToken]⟩
    else ⟨r.1, none, []⟩

def adoptPersistedToken (st : TokenStore) (clock : Clock) (sessionId : String) :
    TokenStore × Option StoredToken :=
  match st.loadTokenFromBackend clock sessionId with
  | some token =>
    if token.isExpired clock.now then (st, none)
    else ({ st with tokens := st.tokens.insert sessionId token }, some token)
  | none => (st, none)

/-- With no other call under way the distributed lock is free: it is taken at
once and released at the end. -/
def refreshWithDistributedLock (st : TokenStore) (clock : Clock) (endpoint : Endpoint)
    (sessionId : String) : Got :=
  match st.persistence with
  | none => st.refreshToken clock endpoint sessionId
  | some _ =>
    match st.adoptPersistedToken clock sessionId with
    | (st, some fresh) => ⟨st, some fresh, []⟩
    | (st, none) => st.refreshToken clock endpoint sessionId

def getToken (st : TokenStore) (clock : Clock) (endpoint : Endpoint) (sessionId : String) : Got :=
  match st.getTokenRaw clock sessionId with
  | (st, none) => ⟨st, none, []⟩
  | (st, some token) =>
    if token.isExpired clock.now then
      if token.refreshToken.isSome && st.refreshConfig then
        -- The double-check under the per-session lock reads the same token.
        st.refreshWithDistributedLock clock endpoint sessionId
      else ⟨st, none, []⟩
    else ⟨st, some token, []⟩

def removeToken (st : TokenStore) (sessionId : String) : TokenStore :=
  let st := { st with tokens := st.tokens.remove sessionId }
  st.updateBackend fun b => { b with tokens := b.tokens.remove sessionId }

/-- What `purge_expired` removes: expired, and nothing to refresh with. -/
def purgeable (now : Nat) (token : StoredToken) : Bool :=
  token.isExpired now && token.refreshToken.isNone

def expiredKeys (tokens : HashMap String StoredToken) (now : Nat) : List String :=
  (tokens.entries.filter fun e => purgeable now e.2).map (·.1)

def purgeExpired (st : TokenStore) (now : Nat) : TokenStore :=
  (expiredKeys st.tokens now).foldl removeToken st

variable (c : Codec)

def indexGrantRefresh (st : TokenStore) (refreshToken sessionKey : String) : TokenStore :=
  let key := credentialSessionKey c refreshToken
  let st := { st with grantRefreshIndex := st.grantRefreshIndex.insert key sessionKey }
  st.updateBackend fun b => { b with grantRefresh := b.grantRefresh.insert key sessionKey }

def resolveGrantRefresh (st : TokenStore) (refreshToken : String) :
    TokenStore × Option String :=
  let key := credentialSessionKey c refreshToken
  match st.grantRefreshIndex.get? key with
  | some sessionKey => (st, some sessionKey)
  | none =>
    match st.persistence.bind fun b => b.grantRefresh.get? key with
    | some sessionKey =>
      ({ st with grantRefreshIndex := st.grantRefreshIndex.insert key sessionKey },
        some sessionKey)
    | none => (st, none)

def removeGrantRefresh (st : TokenStore) (refreshToken : String) : TokenStore :=
  let key := credentialSessionKey c refreshToken
  let st := { st with grantRefreshIndex := st.grantRefreshIndex.remove key }
  st.updateBackend fun b => { b with grantRefresh := b.grantRefresh.remove key }

/-! ## Lookups

`lookup` is what `peek_token` answers; reading through only caches it. -/

def lookup (st : TokenStore) (clock : Clock) (sessionId : String) : Option StoredToken :=
  match st.tokens.get? sessionId with
  | some token => some token
  | none => st.loadTokenFromBackend clock sessionId

variable {c} {st : TokenStore} {clock : Clock} {k k' : String}

theorem getTokenRaw_snd : (st.getTokenRaw clock k).2 = st.lookup clock k := by
  unfold getTokenRaw lookup
  split
  · rfl
  · split
    · rename_i h
      exact h.symm
    · rename_i h
      exact h.symm

@[simp] theorem getTokenRaw_persistence :
    (st.getTokenRaw clock k).1.persistence = st.persistence := by
  unfold getTokenRaw
  split
  · rfl
  · split <;> rfl

@[simp] theorem getTokenRaw_refreshConfig :
    (st.getTokenRaw clock k).1.refreshConfig = st.refreshConfig := by
  unfold getTokenRaw
  split
  · rfl
  · split <;> rfl

theorem record_congr {st' : TokenStore} (h : st'.persistence = st.persistence) (k : String) :
    st'.record k = st.record k := by
  simp only [record, h]

theorem getTokenRaw_tokens_get? :
    (st.getTokenRaw clock k).1.tokens.get? k' =
      if k' = k then st.lookup clock k else st.tokens.get? k' := by
  unfold getTokenRaw lookup
  cases h : st.tokens.get? k with
  | some token =>
    by_cases hk : k' = k
    · subst hk
      simp [h]
    · simp [hk]
  | none =>
    cases hl : st.loadTokenFromBackend clock k with
    | some token => simp [HashMap.get?_orInsert, h]
    | none =>
      by_cases hk : k' = k
      · subst hk
        simp [h]
      · simp [hk]

@[simp] theorem lookup_getTokenRaw :
    (st.getTokenRaw clock k).1.lookup clock k' = st.lookup clock k' := by
  have hload : (st.getTokenRaw clock k).1.loadTokenFromBackend clock k' =
      st.loadTokenFromBackend clock k' := by
    simp only [loadTokenFromBackend, record_congr getTokenRaw_persistence]
  unfold lookup
  rw [getTokenRaw_tokens_get?, hload]
  by_cases hk : k' = k
  · subst hk
    simp only [if_true, lookup]
    cases st.tokens.get? k' with
    | some token => rfl
    | none => cases st.loadTokenFromBackend clock k' <;> rfl
  · simp [hk]

theorem lookup_storeToken (token : StoredToken) :
    (st.storeToken clock k token).lookup clock k' =
      if k' = k then some token else st.lookup clock k' := by
  unfold lookup storeToken
  by_cases hk : k' = k
  · subst hk
    simp [updateBackend]
  · have hload : ((({ st with tokens := st.tokens.insert k token } : TokenStore).updateBackend
        fun b => { b with tokens := b.tokens.insert k (PersistedToken.fromStored clock token) }
        )).loadTokenFromBackend clock k' = st.loadTokenFromBackend clock k' := by
      cases hp : st.persistence with
      | none => simp [loadTokenFromBackend, record, updateBackend, hp]
      | some b => simp [loadTokenFromBackend, record, updateBackend, hp, HashMap.get?_insert, hk]
    simp [updateBackend, HashMap.get?_insert, hk] at hload ⊢
    rw [hload]

/-- A token just stored is what the backend, if there is one, hands back. -/
theorem load_storeToken (token : StoredToken) :
    (st.storeToken clock k token).loadTokenFromBackend clock k =
      if st.persistence.isSome then some (token.reload clock) else none := by
  cases hp : st.persistence with
  | none => simp [loadTokenFromBackend, record, storeToken, updateBackend, hp]
  | some b =>
    simp [loadTokenFromBackend, record, storeToken, updateBackend, hp, StoredToken.reload]

theorem load_getTokenRaw :
    (st.getTokenRaw clock k).1.loadTokenFromBackend clock k' =
      st.loadTokenFromBackend clock k' := by
  simp only [loadTokenFromBackend, record_congr getTokenRaw_persistence]

@[simp] theorem storeToken_refreshConfig (token : StoredToken) :
    (st.storeToken clock k token).refreshConfig = st.refreshConfig := rfl

/-- The persisted token of a session, if it has not expired. -/
def adoptable (st : TokenStore) (clock : Clock) (sessionId : String) : Option StoredToken :=
  (st.loadTokenFromBackend clock sessionId).filter fun token => !token.isExpired clock.now

/-- The whole of `get_token`, in terms of the entry `e` it finds: what the
session holds afterwards, what is returned, what was submitted. -/
def gotOf (st : TokenStore) (clock : Clock) (endpoint : Endpoint) (sessionId : String)
    (e : StoredToken) : Option StoredToken × Option StoredToken × List String :=
  if e.isExpired clock.now then
    match e.refreshToken, st.refreshConfig with
    | some refreshToken, true =>
      match st.adoptable clock sessionId with
      | some fresh => (some fresh, some fresh, [])
      | none =>
        match (endpoint refreshToken).bind (refreshed clock refreshToken) with
        | some newToken => (some newToken, some newToken, [refreshToken])
        | none => (some e, none, [refreshToken])
    | _, _ => (some e, none, [])
  else (some e, some e, [])

theorem refreshToken_spec (endpoint : Endpoint) {e : StoredToken} {refreshToken : String}
    (he : st.lookup clock k = some e) (hrt : e.refreshToken = some refreshToken)
    (hc : st.refreshConfig = true) :
    let g := st.refreshToken clock endpoint k
    (g.store.lookup clock k, g.token, g.submitted) =
      match (endpoint refreshToken).bind (refreshed clock refreshToken) with
      | some newToken => (some newToken, some newToken, [refreshToken])
      | none => (some e, none, [refreshToken]) := by
  simp only [TokenStore.refreshToken, getTokenRaw_snd, he, Option.bind_some, hrt,
    getTokenRaw_refreshConfig, hc, if_true]
  cases (endpoint refreshToken).bind (refreshed clock refreshToken) with
  | some newToken => simp [lookup_storeToken]
  | none => simp [he]

theorem refreshWithDistributedLock_spec (endpoint : Endpoint) {e : StoredToken}
    {refreshToken : String} (he : st.lookup clock k = some e)
    (hrt : e.refreshToken = some refreshToken) (hc : st.refreshConfig = true) :
    let g := st.refreshWithDistributedLock clock endpoint k
    (g.store.lookup clock k, g.token, g.submitted) =
      match st.adoptable clock k with
      | some fresh => (some fresh, some fresh, [])
      | none =>
        match (endpoint refreshToken).bind (refreshed clock refreshToken) with
        | some newToken => (some newToken, some newToken, [refreshToken])
        | none => (some e, none, [refreshToken]) := by
  have hrefresh := refreshToken_spec endpoint he hrt hc
  cases hp : st.persistence with
  | none =>
    have hnone : st.adoptable clock k = none := by
      simp [adoptable, loadTokenFromBackend, record, hp]
    simpa only [refreshWithDistributedLock, hp, hnone] using hrefresh
  | some b =>
    simp only [refreshWithDistributedLock, hp, adoptPersistedToken, adoptable]
    cases hl : st.loadTokenFromBackend clock k with
    | none => simpa using hrefresh
    | some token =>
      by_cases hexp : token.isExpired clock.now = true
      · simpa [hexp, Option.filter] using hrefresh
      · simp [hexp, Option.filter, lookup]

theorem getToken_spec (endpoint : Endpoint) {e : StoredToken} (he : st.lookup clock k = some e) :
    let g := st.getToken clock endpoint k
    (g.store.lookup clock k, g.token, g.submitted) = st.gotOf clock endpoint k e := by
  have hsnd : (st.getTokenRaw clock k).2 = some e := by rw [getTokenRaw_snd, he]
  obtain ⟨st', hraw⟩ : ∃ st', st.getTokenRaw clock k = (st', some e) :=
    ⟨(st.getTokenRaw clock k).1, by rw [← hsnd]⟩
  have hst' : st' = (st.getTokenRaw clock k).1 := by rw [hraw]
  have he' : st'.lookup clock k = some e := by rw [hst', lookup_getTokenRaw, he]
  have hcfg : st'.refreshConfig = st.refreshConfig := by rw [hst', getTokenRaw_refreshConfig]
  have hadopt : st'.adoptable clock k = st.adoptable clock k := by
    rw [adoptable, adoptable, hst', load_getTokenRaw]
  simp only [getToken, hraw, gotOf]
  by_cases hexp : e.isExpired clock.now = true
  · simp only [hexp, if_true, hcfg]
    cases hrt : e.refreshToken with
    | none => simp [he']
    | some refreshToken =>
      cases hc : st.refreshConfig with
      | false => simp [he']
      | true =>
        have hlock := refreshWithDistributedLock_spec endpoint he' hrt (hcfg.trans hc)
        simpa only [Option.isSome_some, Bool.and_self, if_true, hadopt] using hlock
  · simp [hexp, he']

/-- **What `get_token` can do**: leave the entry or take the backend's copy of
it, with nothing submitted; or submit the entry's refresh token, which is
answered or not. -/
theorem gotOf_cases (st : TokenStore) (clock : Clock) (endpoint : Endpoint) (k : String)
    (e : StoredToken) :
    (∃ e' r, st.gotOf clock endpoint k e = (some e', r, []) ∧
        (e' = e ∨ (st.adoptable clock k = some e' ∧ r = some e'))) ∨
      (∃ refreshToken, e.refreshToken = some refreshToken ∧ e.isExpired clock.now = true ∧
        st.refreshConfig = true ∧ st.adoptable clock k = none ∧
        ((∃ new, (endpoint refreshToken).bind (refreshed clock refreshToken) = some new ∧
            st.gotOf clock endpoint k e = (some new, some new, [refreshToken])) ∨
          ((endpoint refreshToken).bind (refreshed clock refreshToken) = none ∧
            st.gotOf clock endpoint k e = (some e, none, [refreshToken])))) := by
  by_cases hexp : e.isExpired clock.now = true
  · cases hrt : e.refreshToken with
    | none => exact .inl ⟨e, none, by simp [gotOf, hexp, hrt], .inl rfl⟩
    | some refreshToken =>
      cases hc : st.refreshConfig with
      | false => exact .inl ⟨e, none, by simp [gotOf, hexp, hrt, hc], .inl rfl⟩
      | true =>
        cases hf : st.adoptable clock k with
        | some fresh =>
          exact .inl ⟨fresh, some fresh, by simp [gotOf, hexp, hrt, hc, hf], .inr ⟨rfl, rfl⟩⟩
        | none =>
          refine .inr ⟨refreshToken, rfl, hexp, rfl, rfl, ?_⟩
          cases hans : (endpoint refreshToken).bind (refreshed clock refreshToken) with
          | some new => exact .inl ⟨new, rfl, by simp [gotOf, hexp, hrt, hc, hf, hans]⟩
          | none => exact .inr ⟨rfl, by simp [gotOf, hexp, hrt, hc, hf, hans]⟩
  · exact .inl ⟨e, some e, by simp [gotOf, hexp], .inl rfl⟩

/-- A `get_token` that returns nothing leaves its session as it was. -/
theorem gotOf_none {endpoint : Endpoint} {e : StoredToken}
    (h : (st.gotOf clock endpoint k e).2.1 = none) :
    (st.gotOf clock endpoint k e).1 = some e := by
  rcases gotOf_cases st clock endpoint k e with
    ⟨e', r, hg, rfl | ⟨-, rfl⟩⟩ | ⟨refreshToken, -, -, -, -, ⟨new, -, hg⟩ | ⟨-, hg⟩⟩
  · rw [hg]
  · rw [hg] at h
    cases h
  · rw [hg] at h
    cases h
  · rw [hg]

/-- What a refresh stores has a refresh token. -/
theorem refreshed_isSome {refreshToken : String} {answer : Option TokenResponse}
    {new : StoredToken} (h : answer.bind (refreshed clock refreshToken) = some new) :
    new.refreshToken.isSome = true := by
  obtain ⟨ans, -, h⟩ := Option.bind_eq_some_iff.mp h
  obtain ⟨a, -, rfl⟩ := Option.map_eq_some_iff.mp h
  rfl

/-! ## The other sessions -/

end TokenStore
end McpFramework
