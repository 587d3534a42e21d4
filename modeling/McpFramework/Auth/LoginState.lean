import McpFramework.Auth.ProxiedAuthorization
import McpFramework.Auth.TokenStore
import McpFramework.Core.Text

/-!
# Auth — LoginState

The server-side login (`auth/routes.rs`): `/oauth/login` writes the session id
behind a random prefix into the state it sends to the authorization server, and
`/oauth/callback` splits the state it is given back, exchanges the code and
stores the token under what it finds there.

The login appends the session id after a colon and the callback takes what stands
between the first colon and the next.
-/

namespace McpFramework.LoginProtocol

open Lib
open ProxiedProtocol (CallbackQuery HttpError Location ProxiedAuthorization PROXIED_AUTH_TIMEOUT
  forwardProxiedCallback)

def PENDING_AUTH_TIMEOUT : Nat := Duration.fromSecs 300

/-! ## The state -/

structure PendingAuth where
  pkceVerifier : String
  createdAt : Nat

def PendingAuth.isExpired (pending : PendingAuth) (now : Nat) : Bool :=
  decide (now > pending.createdAt + PENDING_AUTH_TIMEOUT)

def csrfState (uuid : Uuid) : Option String → String
  | some sid => uuid.toText ++ ":" ++ sid
  | none => uuid.toText

/-- `split(':').nth(1)`. -/
def sessionIdOfState (state : String) : Option String :=
  (state.toList.splitOn ':')[1]?.map String.ofList

def beforeColon (s : String) : String := String.ofList (s.toList.takeWhile fun ch => ch != ':')

theorem head_splitOn (cs : List Char) :
    (cs.splitOn ':')[0]? = some (cs.takeWhile fun ch => ch != ':') := by
  induction cs with
  | nil => simp
  | cons ch cs ih =>
    rw [List.splitOn_cons_eq_if_modifyHead]
    by_cases h : ch = ':'
    · simp [h]
    · obtain ⟨first, rest, hsplit⟩ := List.exists_cons_of_ne_nil (List.splitOn_ne_nil ':' cs)
      rw [hsplit] at ih ⊢
      simp only [List.getElem?_cons_zero, Option.some.injEq] at ih
      simp [h, ih]

theorem toList_csrfState (uuid : Uuid) (sid : String) :
    (csrfState uuid (some sid)).toList = uuid.toText.toList ++ ':' :: sid.toList := by
  simp [csrfState, String.toList_append]

/-- The callback reads the session id up to its first colon. -/
theorem sessionIdOfState_csrfState (uuid : Uuid) (sid : String) :
    sessionIdOfState (csrfState uuid (some sid)) = some (beforeColon sid) := by
  rw [sessionIdOfState, toList_csrfState,
    List.splitOn_append_cons_self_of_not_mem uuid.colon_notMem_toText, List.getElem?_cons_succ,
    head_splitOn]
  rfl

theorem beforeColon_eq_iff (sid : String) : beforeColon sid = sid ↔ ':' ∉ sid.toList := by
  rw [beforeColon, ← String.toList_inj, String.toList_ofList, List.takeWhile_eq_self_iff]
  constructor
  · intro h hmem
    simpa using h ':' hmem
  · intro h ch hmem
    exact bne_iff_ne.mpr fun hch => h (hch ▸ hmem)

/-- Whatever the random prefixes, a state belongs to one session id. -/
theorem csrfState_inj {uuid uuid' : Uuid} {sid sid' : String}
    (h : csrfState uuid (some sid) = csrfState uuid' (some sid')) : sid = sid' := by
  have hlist := congrArg String.toList h
  rw [toList_csrfState, toList_csrfState] at hlist
  obtain ⟨-, htail⟩ := List.append_inj hlist (by simp only [Uuid.length_toText])
  exact String.toList_inj.mp (List.cons.inj htail).2

/-- No login has the state of a proxied authorization. -/
theorem csrfState_ne_simple (uuid uuid' : Uuid) (sid : String) :
    csrfState uuid (some sid) ≠ uuid'.simple := by
  intro h
  have hmem : ':' ∈ uuid'.simple.toList := by
    rw [← h, toList_csrfState]
    simp
  exact uuid'.notMem_hex 0 32 (.inr rfl) hmem

/-! ## The steps -/

/-- What the token endpoint answers to a code. -/
structure BasicTokenResponse where
  accessToken : String
  refreshToken : Option String
  expiresIn : Option Nat

def fromTokenResponse (now : Nat) (response : BasicTokenResponse) : StoredToken :=
  { accessToken := response.accessToken
    refreshToken := response.refreshToken
    expiresAt := response.expiresIn.map fun secs => now + Duration.fromSecs secs }

/-- What a callback answers: the redirect to a client, or the success page. -/
inductive Response where
  | forwarded (location : Location)
  | successPage (sessionId : String)

/-- A callback; `exchange` waits for the token endpoint. -/
inductive Pc where
  | idle
  | exchange (state code pkceVerifier : String)
  | done (response : Except HttpError Response)

/-- Ghost: a state that was given out for a session id, and when. -/
structure Issued where
  state : String
  sessionId : String
  instant : Nat

/-- Ghost: a callback stored its token under a session id. -/
structure Stored where
  state : String
  sessionId : String

/-- The parked authorizations of `/oauth/authorize` are those in memory and in the
backend together. `issued` and all below are ghost. -/
structure State where
  clock : Clock
  store : TokenStore
  pendingAuths : HashMap String PendingAuth
  proxiedAuths : HashMap String (ProxiedAuthorization × Nat)
  tasks : Nat → Pc
  issued : List Issued
  presented : List String
  stored : List Stored

inductive Label where
  | tick (d : Nat)
  | login (sessionId : Option String) (uuid : Uuid) (pkceVerifier : String)
  | authorize (uuid : Uuid) (auth : ProxiedAuthorization)
  | callback (t : Nat) (query : CallbackQuery)
  /-- The token endpoint answers task `t`; `uuid` is what is drawn when the state
  names no session. -/
  | exchanged (t : Nat) (response : Except String BasicTokenResponse) (uuid : Uuid)

def init (clock : Clock) (store : TokenStore) : State :=
  { clock := clock, store := store, pendingAuths := HashMap.empty
    proxiedAuths := HashMap.empty, tasks := fun _ => .idle
    issued := [], presented := [], stored := [] }

namespace State

def goto (st : State) (t : Nat) (pc : Pc) : State :=
  { st with tasks := Function.update st.tasks t pc }

def storePendingAuth (st : State) (state pkceVerifier : String) : State :=
  let pending := st.pendingAuths.retain fun _ v => !v.isExpired st.clock.now
  { st with pendingAuths := pending.insert state ⟨pkceVerifier, st.clock.now⟩ }

def storeProxiedAuthorization (st : State) (state : String) (auth : ProxiedAuthorization) :
    State :=
  let proxied := st.proxiedAuths.retain fun _ entry =>
    decide (st.clock.now - entry.2 ≤ PROXIED_AUTH_TIMEOUT)
  { st with proxiedAuths := proxied.insert state (auth, st.clock.now) }

def takeProxiedAuthorization (st : State) (state : String) :
    State × Option ProxiedAuthorization :=
  ({ st with proxiedAuths := st.proxiedAuths.remove state },
    ((st.proxiedAuths.get? state).filter fun entry =>
      decide (st.clock.now - entry.2 ≤ PROXIED_AUTH_TIMEOUT)).map (·.1))

def takePendingAuth (st : State) (state : String) : State × Option PendingAuth :=
  ({ st with pendingAuths := st.pendingAuths.remove state }, st.pendingAuths.get? state)

end State

section Handlers

-- `clientError` is what building the OAuth client fails with, `parses` says which
-- strings are URLs.
variable (clientError : Option String) (parses : String → Bool)

/-- Without a client the login answers an error and gives out no state. -/
def loginHandler (st : State) (sessionId : Option String) (uuid : Uuid) (pkceVerifier : String) :
    State :=
  match clientError with
  | some _ => st
  | none =>
    let state := csrfState uuid sessionId
    let st := st.storePendingAuth state pkceVerifier
    { st with
      issued := (sessionId.map fun sid => Issued.mk state sid st.clock.now).toList ++ st.issued }

/-- The server-side login, up to the exchange. -/
def loginCallback (st : State) (t : Nat) (query : CallbackQuery) : State :=
  match query.code with
  | none =>
    st.goto t (.done (.error (.badRequest
      ("Authentication failed: " ++ query.error.getD "no authorization code"))))
  | some code =>
    match st.takePendingAuth query.state with
    | (st, none) =>
      st.goto t (.done (.error (.badRequest "Invalid or expired authentication state")))
    | (st, some pending) =>
      if pending.isExpired st.clock.now then
        st.goto t (.done (.error (.badRequest "Authentication request has timed out")))
      else
        match clientError with
        | some _ => st.goto t (.done (.error (.internal "OAuth configuration error")))
        | none => st.goto t (.exchange query.state code pending.pkceVerifier)

def callbackHandler (st : State) (t : Nat) (query : CallbackQuery) : State :=
  let st := { st with presented := query.state :: st.presented }
  match st.takeProxiedAuthorization query.state with
  | (st, some proxied) =>
    st.goto t (.done ((forwardProxiedCallback parses proxied query).map .forwarded))
  | (st, none) => loginCallback clientError st t query

/-- The end of a login: the token is stored under what the state names. -/
def finishLogin (st : State) (t : Nat) (state : String)
    (response : Except String BasicTokenResponse) (uuid : Uuid) : State :=
  match response with
  | .error e =>
    st.goto t (.done (.error (.internal ("Failed to exchange authorization code: " ++ e))))
  | .ok response =>
    let finalSessionId := (sessionIdOfState state).getD uuid.toText
    { st with
      store := st.store.storeToken st.clock finalSessionId (fromTokenResponse st.clock.now response)
      stored := ⟨state, finalSessionId⟩ :: st.stored }.goto t
      (.done (.ok (.successPage finalSessionId)))

def step (st : State) : Label → Option State
  | .tick d =>
    some { st with clock := ⟨st.clock.now + d, st.clock.unix + d⟩ }
  | .login sessionId uuid pkceVerifier =>
    some (loginHandler clientError st sessionId uuid pkceVerifier)
  | .authorize uuid auth => some (st.storeProxiedAuthorization uuid.simple auth)
  | .callback t query =>
    match st.tasks t with
    | .idle => some (callbackHandler clientError parses st t query)
    | _ => none
  | .exchanged t response uuid =>
    match st.tasks t with
    | .exchange state _ _ => some (finishLogin st t state response uuid)
    | _ => none

def system : System State Label := ⟨step clientError parses⟩

end Handlers

/-- Any run. -/
def Any (_ : State) (_ : Label) : Prop := True

instance (st : State) (l : Label) : Decidable (Any st l) := isTrue trivial

/-! ## What every run keeps -/

/-- A state that was given out is pending until it is presented or has timed out,
and no parked authorization stands in its way. -/
structure Inv (st : State) : Prop where
  proxied : ∀ key entry, st.proxiedAuths.get? key = some entry → ∃ uuid : Uuid, key = uuid.simple
  issued : ∀ i ∈ st.issued,
    (∃ uuid, i.state = csrfState uuid (some i.sessionId)) ∧ i.instant ≤ st.clock.now
  pending : ∀ i ∈ st.issued, i.state ∈ st.presented ∨
    i.instant + PENDING_AUTH_TIMEOUT < st.clock.now ∨
      ∃ p, st.pendingAuths.get? i.state = some p ∧ i.instant ≤ p.createdAt
  stored : ∀ r ∈ st.stored, ∀ sid, sessionIdOfState r.state = some sid → r.sessionId = sid

section Invariant

variable {clientError : Option String} {parses : String → Bool} {st st' : State} {t : Nat}

theorem Inv.init (clock : Clock) (store : TokenStore) : Inv (init clock store) :=
  { proxied := fun key entry h => by
      rw [LoginProtocol.init, HashMap.get?_empty] at h
      cases h
    issued := fun _ h => absurd h (by simp [LoginProtocol.init])
    pending := fun _ h => absurd h (by simp [LoginProtocol.init])
    stored := fun _ h => absurd h (by simp [LoginProtocol.init]) }

theorem Inv.goto (h : Inv st) (t : Nat) (pc : Pc) : Inv (st.goto t pc) :=
  ⟨h.proxied, h.issued, h.pending, h.stored⟩

theorem Inv.tick (h : Inv st) (d : Nat) :
    Inv { st with clock := ⟨st.clock.now + d, st.clock.unix + d⟩ } :=
  { h with
    issued := fun i hi => ⟨(h.issued i hi).1, le_trans (h.issued i hi).2 (Nat.le_add_right ..)⟩
    pending := fun i hi => by
      rcases h.pending i hi with hpresented | hexpired | hpending
      · exact .inl hpresented
      · exact .inr (.inl (by dsimp only; omega))
      · exact .inr (.inr hpending) }

theorem get?_storePendingAuth (st : State) (state pkceVerifier key : String) :
    (st.storePendingAuth state pkceVerifier).pendingAuths.get? key =
      if key = state then some ⟨pkceVerifier, st.clock.now⟩
      else (st.pendingAuths.get? key).filter fun v => !v.isExpired st.clock.now := by
  rw [State.storePendingAuth, HashMap.get?_insert, HashMap.get?_retain]

/-- Cleaning up drops only what has timed out. -/
theorem pending_storePendingAuth (state pkceVerifier : String) {i : Issued}
    (hinstant : i.instant ≤ st.clock.now)
    (h : i.state = state ∨ i.state ∈ st.presented ∨
      i.instant + PENDING_AUTH_TIMEOUT < st.clock.now ∨
        ∃ p, st.pendingAuths.get? i.state = some p ∧ i.instant ≤ p.createdAt) :
    i.state ∈ st.presented ∨ i.instant + PENDING_AUTH_TIMEOUT < st.clock.now ∨
      ∃ p, (st.storePendingAuth state pkceVerifier).pendingAuths.get? i.state = some p ∧
        i.instant ≤ p.createdAt := by
  rw [get?_storePendingAuth]
  by_cases hstate : i.state = state
  · rw [if_pos hstate]
    exact .inr (.inr ⟨_, rfl, hinstant⟩)
  rw [if_neg hstate]
  rcases h with h | hpresented | hlate | ⟨p, hp, hcreated⟩
  · exact absurd h hstate
  · exact .inl hpresented
  · exact .inr (.inl hlate)
  · by_cases hexp : p.isExpired st.clock.now = true
    · have hlate := of_decide_eq_true hexp
      exact .inr (.inl (by omega))
    · refine .inr (.inr ⟨p, ?_, hcreated⟩)
      rw [hp]
      simp [Option.filter, hexp]

theorem Inv.login (h : Inv st) (sessionId : Option String) (uuid : Uuid) (pkceVerifier : String) :
    Inv (loginHandler clientError st sessionId uuid pkceVerifier) := by
  unfold loginHandler
  cases clientError with
  | some _ => exact h
  | none =>
    have hcases : ∀ i ∈ (sessionId.map fun sid =>
        Issued.mk (csrfState uuid sessionId) sid st.clock.now).toList ++ st.issued,
        (i.state = csrfState uuid (some i.sessionId) ∧ i.state = csrfState uuid sessionId ∧
          i.instant = st.clock.now) ∨ i ∈ st.issued := by
      intro i hi
      rcases List.mem_append.mp hi with hi | hi
      · cases sessionId with
        | none => simp at hi
        | some sid =>
          simp only [Option.map_some, Option.toList_some, List.mem_singleton] at hi
          subst hi
          exact .inl ⟨rfl, rfl, rfl⟩
      · exact .inr hi
    refine ⟨h.proxied, fun i hi => ?_, fun i hi => ?_, h.stored⟩
    · rcases hcases i hi with ⟨hstate, -, hinstant⟩ | hi
      · exact ⟨⟨uuid, hstate⟩, le_of_eq hinstant⟩
      · exact h.issued i hi
    · rcases hcases i hi with ⟨-, hstate, hinstant⟩ | hi
      · exact pending_storePendingAuth _ _ (le_of_eq hinstant) (.inl hstate)
      · exact pending_storePendingAuth _ _ (h.issued i hi).2 (.inr (h.pending i hi))

theorem Inv.authorize (h : Inv st) (uuid : Uuid) (auth : ProxiedAuthorization) :
    Inv (st.storeProxiedAuthorization uuid.simple auth) := by
  refine ⟨fun key entry hkey => ?_, h.issued, h.pending, h.stored⟩
  rw [State.storeProxiedAuthorization, HashMap.get?_insert] at hkey
  split at hkey
  · exact ⟨uuid, ‹_›⟩
  · rw [HashMap.get?_retain, Option.filter_eq_some_iff] at hkey
    exact h.proxied key entry hkey.1

/-- What is taken was presented. -/
theorem Inv.loginCallback {query : CallbackQuery} (h : Inv st) (hq : query.state ∈ st.presented) :
    Inv (loginCallback clientError st t query) := by
  have htaken : Inv (st.takePendingAuth query.state).1 := by
    refine ⟨h.proxied, h.issued, fun i hi => ?_, h.stored⟩
    rcases h.pending i hi with hpresented | hlate | ⟨p, hp, hcreated⟩
    · exact .inl hpresented
    · exact .inr (.inl hlate)
    · by_cases hstate : i.state = query.state
      · exact .inl (hstate ▸ hq)
      · refine .inr (.inr ⟨p, ?_, hcreated⟩)
        rw [State.takePendingAuth, HashMap.get?_remove, if_neg hstate, hp]
  unfold LoginProtocol.loginCallback
  split
  · exact h.goto t _
  · split
    · next heq => exact (heq ▸ htaken).goto t _
    · next heq =>
      rw [heq] at htaken
      split
      · exact htaken.goto t _
      · split
        · exact htaken.goto t _
        · exact htaken.goto t _

theorem Inv.callback (h : Inv st) (query : CallbackQuery) :
    Inv (callbackHandler clientError parses st t query) := by
  have hpresented : Inv { st with presented := query.state :: st.presented } :=
    ⟨h.proxied, h.issued, fun i hi => (h.pending i hi).imp_left (List.mem_cons_of_mem _),
      h.stored⟩
  have htaken : Inv (({ st with presented := query.state :: st.presented } :
      State).takeProxiedAuthorization query.state).1 := by
    refine ⟨fun key entry hkey => ?_, hpresented.issued, hpresented.pending, hpresented.stored⟩
    rw [State.takeProxiedAuthorization, HashMap.get?_remove] at hkey
    split at hkey
    · cases hkey
    · exact h.proxied key entry hkey
  have hmem : query.state ∈ (({ st with presented := query.state :: st.presented } :
      State).takeProxiedAuthorization query.state).1.presented := List.mem_cons_self
  unfold callbackHandler
  dsimp only
  split
  · next heq =>
    rw [heq] at htaken
    exact htaken.goto t _
  · next heq =>
    rw [heq] at htaken hmem
    exact htaken.loginCallback hmem

theorem Inv.finishLogin (h : Inv st) (state : String)
    (response : Except String BasicTokenResponse) (uuid : Uuid) :
    Inv (finishLogin st t state response uuid) := by
  unfold LoginProtocol.finishLogin
  split
  · exact h.goto t _
  · refine ⟨h.proxied, h.issued, h.pending, fun r hr sid hsid => ?_⟩
    rcases List.mem_cons.mp hr with rfl | hr
    · have hsid : sessionIdOfState state = some sid := hsid
      show (sessionIdOfState state).getD uuid.toText = sid
      rw [hsid]
      rfl
    · exact h.stored r hr sid hsid

theorem Inv.step {l : Label} (h : Inv st) (hs : step clientError parses st l = some st') :
    Inv st' := by
  cases l with
  | tick d =>
    cases hs
    exact h.tick d
  | login sessionId uuid pkceVerifier =>
    cases hs
    exact h.login sessionId uuid pkceVerifier
  | authorize uuid auth =>
    cases hs
    exact h.authorize uuid auth
  | callback t query =>
    simp only [LoginProtocol.step] at hs
    split at hs <;> cases hs
    exact h.callback query
  | exchanged t response uuid =>
    simp only [LoginProtocol.step] at hs
    split at hs <;> cases hs
    exact h.finishLogin _ response uuid

theorem inv_of_reach {clock : Clock} {store : TokenStore}
    (hr : (system clientError parses).Reach Any (LoginProtocol.init clock store) st) : Inv st :=
  hr.invariant (Inv.init clock store) fun _ _ _ h _ hs => h.step hs

end Invariant

/-! ## The round trip -/

section RoundTrip

-- The configured client can be built: without one nothing is ever given out.
variable (parses : String → Bool) (clock : Clock) (store : TokenStore)

/-- A run from the start, with any number of logins and callbacks. -/
def Run (st : State) : Prop := (system none parses).Reach Any (init clock store) st

/-- A login for this session id stores its token under it: the state that was
given out is exchanged when it is presented in time, a successful exchange stores
the token, and no callback that presents it stores one elsewhere. -/
structure RoundTrip (sid : String) : Prop where
  taken : ∀ st, Run parses clock store st → ∀ i ∈ st.issued, i.sessionId = sid →
    i.state ∉ st.presented → st.clock.now ≤ i.instant + PENDING_AUTH_TIMEOUT →
      ∀ t query code, st.tasks t = .idle → query.state = i.state → query.code = some code →
        ∃ st' pkceVerifier, step none parses st (.callback t query) = some st' ∧
          st'.tasks t = .exchange i.state code pkceVerifier
  stores : ∀ st, Run parses clock store st → ∀ i ∈ st.issued, i.sessionId = sid →
    ∀ t code pkceVerifier, st.tasks t = .exchange i.state code pkceVerifier →
      ∀ response uuid, ∃ st', step none parses st (.exchanged t (.ok response) uuid) = some st' ∧
        st'.store = st.store.storeToken st.clock sid (fromTokenResponse st.clock.now response)
  only : ∀ st, Run parses clock store st → ∀ i ∈ st.issued, i.sessionId = sid →
    ∀ r ∈ st.stored, r.state = i.state → r.sessionId = sid

variable {parses clock store} {st : State} {t : Nat}

theorem takePending_of_fresh {i : Issued} (h : Inv st) (hi : i ∈ st.issued)
    (hfresh : i.state ∉ st.presented) (hnow : st.clock.now ≤ i.instant + PENDING_AUTH_TIMEOUT) :
    ∃ p, st.pendingAuths.get? i.state = some p ∧ p.isExpired st.clock.now = false := by
  rcases h.pending i hi with hpresented | hlate | ⟨p, hp, hcreated⟩
  · exact absurd hpresented hfresh
  · omega
  · exact ⟨p, hp, decide_eq_false (by omega)⟩

/-- The state of a login reaches the login, not a parked authorization, and the
exchange. -/
theorem callback_issued {i : Issued} (h : Inv st) (hi : i ∈ st.issued) {p : PendingAuth}
    (hp : st.pendingAuths.get? i.state = some p) (hexp : p.isExpired st.clock.now = false)
    {query : CallbackQuery} {code : String} (hidle : st.tasks t = .idle)
    (hstate : query.state = i.state) (hcode : query.code = some code) :
    ∃ st', step none parses st (.callback t query) = some st' ∧
      st'.tasks t = .exchange i.state code p.pkceVerifier ∧
      (∀ u, u ≠ t → st'.tasks u = st.tasks u) ∧ st'.issued = st.issued ∧
        st'.stored = st.stored := by
  obtain ⟨⟨uuid, huuid⟩, -⟩ := h.issued i hi
  have hproxied : st.proxiedAuths.get? i.state = none := by
    cases hget : st.proxiedAuths.get? i.state with
    | none => rfl
    | some entry =>
      obtain ⟨uuid', huuid'⟩ := h.proxied i.state entry hget
      exact absurd (huuid.symm.trans huuid') (csrfState_ne_simple uuid uuid' _)
  refine ⟨callbackHandler none parses st t query, by simp only [step, hidle], ?_⟩
  have hothers : ∀ (pc : Pc) u, u ≠ t → Function.update st.tasks t pc u = st.tasks u :=
    fun pc u hu => Function.update_of_ne hu pc st.tasks
  simpa [callbackHandler, State.takeProxiedAuthorization, loginCallback, State.takePendingAuth,
    State.goto, hproxied, hcode, hstate, hp, hexp] using hothers _

/-- A successful exchange stores what was before the first colon of the id. -/
theorem exchanged_issued {i : Issued} (h : Inv st) (hi : i ∈ st.issued) {code : String}
    {pkceVerifier : String} (hpc : st.tasks t = .exchange i.state code pkceVerifier)
    (response : BasicTokenResponse) (uuid : Uuid) :
    ∃ st', step none parses st (.exchanged t (.ok response) uuid) = some st' ∧
      st'.store = st.store.storeToken st.clock (beforeColon i.sessionId)
        (fromTokenResponse st.clock.now response) ∧
      (∀ u, u ≠ t → st'.tasks u = st.tasks u) ∧
      st'.issued = st.issued ∧ st'.stored = ⟨i.state, beforeColon i.sessionId⟩ :: st.stored := by
  obtain ⟨⟨uuid', huuid⟩, -⟩ := h.issued i hi
  have hsid : (sessionIdOfState i.state).getD uuid.toText = beforeColon i.sessionId := by
    rw [huuid, sessionIdOfState_csrfState, Option.getD_some]
  refine ⟨finishLogin st t i.state (.ok response) uuid, by simp only [step, hpc], ?_⟩
  refine ⟨?_, fun u hu => Function.update_of_ne hu _ _, rfl, ?_⟩
  · simp only [finishLogin, State.goto, hsid]
  · simp only [finishLogin, State.goto, hsid]

theorem stored_issued {i : Issued} {r : Stored} (h : Inv st) (hi : i ∈ st.issued)
    (hr : r ∈ st.stored) (hstate : r.state = i.state) : r.sessionId = beforeColon i.sessionId := by
  obtain ⟨⟨uuid, huuid⟩, -⟩ := h.issued i hi
  refine h.stored r hr _ ?_
  rw [hstate, huuid, sessionIdOfState_csrfState]

/-- One can log in for any session id, at any point of a run with a task to spare. -/
theorem exists_login (hr : Run parses clock store st) (ht : st.tasks t = .idle) (sid : String) :
    ∃ st', Run parses clock store st' ∧ (∀ u, u ≠ t → st'.tasks u = st.tasks u) ∧
      ∃ i, i.sessionId = sid ∧ st'.issued = i :: st.issued ∧
        st'.stored = ⟨i.state, beforeColon sid⟩ :: st.stored := by
  -- The prefix and the verifier do not matter.
  let st₁ := loginHandler none st (some sid) 0 ""
  have hr₁ : Run parses clock store st₁ := .step (l := .login (some sid) 0 "") hr trivial rfl
  let i : Issued := ⟨csrfState 0 (some sid), sid, st.clock.now⟩
  have hi : i ∈ st₁.issued := List.mem_cons_self
  have hp : st₁.pendingAuths.get? i.state = some ⟨"", st.clock.now⟩ := by
    show (st.storePendingAuth _ _).pendingAuths.get? _ = _
    rw [get?_storePendingAuth, if_pos rfl]
  have hexp : (⟨"", st.clock.now⟩ : PendingAuth).isExpired st₁.clock.now = false :=
    decide_eq_false (Nat.not_lt.mpr (Nat.le_add_right ..))
  let query : CallbackQuery := ⟨some "", i.state, none, none, none⟩
  obtain ⟨st₂, hs₂, hpc, htasks₂, hissued₂, hstored₂⟩ := @callback_issued parses st₁ t i
    (inv_of_reach hr₁) hi _ hp hexp query "" ht rfl rfl
  have hr₂ : Run parses clock store st₂ := .step (l := .callback t query) hr₁ trivial hs₂
  obtain ⟨st₃, hs₃, -, htasks₃, hissued₃, hstored₃⟩ := @exchanged_issued parses st₂ t i
    (inv_of_reach hr₂) (hissued₂ ▸ hi) _ _ hpc ⟨"", none, none⟩ 0
  refine ⟨st₃, .step (l := .exchanged t (.ok ⟨"", none, none⟩) 0) hr₂ trivial hs₃,
    fun u hu => (htasks₃ u hu).trans (htasks₂ u hu), i, rfl, hissued₃.trans hissued₂, ?_⟩
  rw [hstored₃, hstored₂]
  rfl

/-- **What a login is stored under.** Whatever else is pending, a login for a
session id stores its token under it if and only if there is no colon in it; and
logins for two ids never store under one if and only if the ids differ before
their first colons. -/
theorem login_round_trip_iff (parses : String → Bool) (clock : Clock) (store : TokenStore)
    (sid : String) :
    (RoundTrip parses clock store sid ↔ ':' ∉ sid.toList) ∧
    ∀ sid', (∀ st, Run parses clock store st →
        ∀ i ∈ st.issued, i.sessionId = sid → ∀ i' ∈ st.issued, i'.sessionId = sid' →
          ∀ r ∈ st.stored, r.state = i.state → ∀ r' ∈ st.stored, r'.state = i'.state →
            r.sessionId ≠ r'.sessionId) ↔
      beforeColon sid ≠ beforeColon sid' := by
  obtain ⟨st, hr, htasks, i, hsid, hissued, hstored⟩ :=
    @exists_login parses clock store (init clock store) 0 .refl rfl sid
  constructor
  · rw [← beforeColon_eq_iff]
    constructor
    · intro h
      exact h.only st hr i (by simp [hissued]) hsid ⟨i.state, beforeColon sid⟩ (by simp [hstored])
        rfl
    · intro hplain
      refine ⟨fun st hr i hi hsid hfresh hnow t query code hidle hstate hcode => ?_,
        fun st hr i hi hsid t code pkceVerifier hpc response uuid => ?_,
        fun st hr i hi hsid r hstored hstate => ?_⟩
      · obtain ⟨p, hp, hexp⟩ := takePending_of_fresh (inv_of_reach hr) hi hfresh hnow
        obtain ⟨st', hs, hpc, -⟩ :=
          callback_issued (inv_of_reach hr) hi hp hexp hidle hstate hcode
        exact ⟨st', p.pkceVerifier, hs, hpc⟩
      · obtain ⟨st', hs, hstore, -⟩ := exchanged_issued (inv_of_reach hr) hi hpc response uuid
        rw [hsid, hplain] at hstore
        exact ⟨st', hs, hstore⟩
      · rw [stored_issued (inv_of_reach hr) hi hstored hstate, hsid, hplain]
  · intro sid'
    constructor
    · intro h
      obtain ⟨st', hr', -, i', hsid', hissued', hstored'⟩ :=
        exists_login hr (t := 1) (htasks 1 (by decide)) sid'
      exact h st' hr' i (by simp [hissued', hissued]) hsid i' (by simp [hissued']) hsid'
        ⟨i.state, beforeColon sid⟩ (by simp [hstored', hstored]) rfl
        ⟨i'.state, beforeColon sid'⟩ (by simp [hstored']) rfl
    · intro hne st hr i hi hsid i' hi' hsid' r hr₁ hstate r' hr₂ hstate'
      rw [stored_issued (inv_of_reach hr) hi hr₁ hstate,
        stored_issued (inv_of_reach hr) hi' hr₂ hstate', hsid, hsid']
      exact hne

end RoundTrip

/-- The token of session team:a is stored under team, as is that of team:b. -/
theorem token_stored_before_colon :
    ¬ ∀ (parses : String → Bool) (clock : Clock) (store : TokenStore) (sid : String),
      RoundTrip parses clock store sid ∧
        ∀ sid', sid' ≠ sid → ∀ st, Run parses clock store st →
          ∀ i ∈ st.issued, i.sessionId = sid → ∀ i' ∈ st.issued, i'.sessionId = sid' →
            ∀ r ∈ st.stored, r.state = i.state → ∀ r' ∈ st.stored, r'.state = i'.state →
              r.sessionId ≠ r'.sessionId := by
  intro h
  obtain ⟨st, hr, htasks, i, hsid, hissued, hstored⟩ :=
    @exists_login (fun _ => true) ⟨0, 0⟩ (.new false none) _ 0 .refl rfl "team:a"
  obtain ⟨st', hr', -, i', hsid', hissued', hstored'⟩ :=
    exists_login (t := 1) hr (htasks 1 (by decide)) "team:b"
  have hsame : beforeColon "team:a" = beforeColon "team:b" := by decide
  exact (h (fun _ => true) ⟨0, 0⟩ (.new false none) "team:a").2 "team:b" (by decide) st' hr'
    i (by simp [hissued', hissued]) hsid i' (by simp [hissued']) hsid'
    ⟨i.state, beforeColon "team:a"⟩ (by simp [hstored', hstored]) rfl
    ⟨i'.state, beforeColon "team:b"⟩ (by simp [hstored']) rfl hsame

end McpFramework.LoginProtocol
