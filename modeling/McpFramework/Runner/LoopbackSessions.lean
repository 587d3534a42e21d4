import McpFramework.Auth.Config
import McpFramework.Runner.LoopbackIdentity
import McpFramework.Session.Expiry

/-!
# Runner — LoopbackSessions

The sessions of a loopback endpoint (`transport/loopback.rs`): any number of
connects, cut at their awaits, of sessions that are open at once, and of names that
are forgotten. The endpoint's token store has no backend and nothing to refresh
with, and its session store no backend; each of their operations takes effect in
one section.

`events` is ghost: what took effect, the newest first.
-/

namespace McpFramework.LoopbackSessions

open Lib

/-! ## The steps -/

/-- `LoopbackConnectError`, with what connecting adds to the checks. -/
inductive ConnectError where
  | invalidIdentity (error : LoopbackConnectError)
  | unresolvableCredential (sessionId : String)
  | initializeFailed (error : String)

/-- A call of `connect` and the session it opens, or a call of `forget_session`. -/
inductive Pc where
  | idle
  /-- The credential is about to replace what the store holds. -/
  | storeToken (identity : LoopbackIdentity)
  | serve (identity : LoopbackIdentity)
  | handshake (identity : LoopbackIdentity)
  | opened (identity : LoopbackIdentity)
  | closed
  | failed (error : ConnectError)
  | removeToken (sessionId : String)
  | removeState (sessionId : String)
  | forgotten
  | dropped

/-- The task that serves a session. -/
inductive Server where
  | unspawned
  | running
  | ended
deriving DecidableEq

/-- What a handler does to the data of its session. -/
inductive DataCall (T : Type) where
  | get
  | getOrCreate
  | update (f : T → T)
  | remove

def DataCall.apply {T : Type} [Inhabited T] (st : SessionStore T) (clock : Clock)
    (sessionId : String) : DataCall T → SessionStore T
  | .get => (st.get clock .ok sessionId).1
  | .getOrCreate => (st.getOrCreate clock .ok sessionId).1
  | .update f => (st.update clock .ok sessionId f).1
  | .remove => (st.remove clock .ok sessionId).1

inductive Event where
  /-- Connect `t` has replaced the credential of the name. -/
  | presented (t : Nat) (sessionId : String) (bearerToken : Option String)
  | tokenForgotten (sessionId : String)
  | dataUsed (sessionId : String)
  | dataForgotten (sessionId : String)

structure State (T : Type) where
  clock : Clock
  tokens : TokenStore
  sessions : SessionStore T
  calls : Nat → Pc
  servers : Nat → Server
  events : List Event

inductive Label (T : Type) where
  /-- `d` passes, after which the system clock reads `unix`. -/
  | tick (d unix : Nat)
  | connect (t : Nat) (identity : LoopbackIdentity)
  | forgetSession (t : Nat) (sessionId : String)
  /-- Call `t` runs its next section. -/
  | run (t : Nat)
  /-- The handshake of connect `t` comes to its end. -/
  | shake (t : Nat) (answer : Except String Unit)
  /-- A request in session `t` resolves its token. -/
  | resolveToken (t : Nat) (env : Surroundings) (extensions : Option Parts)
  | data (t : Nat) (extensions : Option Parts) (call : DataCall T)
  /-- The session is cancelled, or dropped. -/
  | close (t : Nat)
  /-- The serve loop of session `t` ends by itself. -/
  | serverEnds (t : Nat)
  /-- The future of call `t` is dropped where it waits. -/
  | drop (t : Nat)

section Sections

variable {T : Type} [Inhabited T] (tokenMode : TokenMode)

def State.goto (st : State T) (t : Nat) (pc : Pc) : State T :=
  { st with calls := Function.update st.calls t pc }

def State.happens (st : State T) (e : Event) : State T := { st with events := e :: st.events }

def State.setServer (st : State T) (t : Nat) (server : Server) : State T :=
  { st with servers := Function.update st.servers t server }

/-- `connect` before its first await. -/
def checked (identity : LoopbackIdentity) : Pc :=
  match identity.validate with
  | .error e => .failed (.invalidIdentity e)
  | .ok () =>
    if tokenMode = .opaqueTokens ∧ identity.bearerToken.isSome then
      .failed (.unresolvableCredential identity.sessionId)
    else .storeToken identity

/-- The credentials presented replace what the store held, in both directions. -/
def present (st : State T) (t : Nat) (identity : LoopbackIdentity) : State T :=
  let tokens :=
    match identity.bearerToken with
    | some token => st.tokens.storeToken st.clock identity.sessionId ⟨token, none, none⟩
    | none => st.tokens.removeToken identity.sessionId
  { st with tokens := tokens }.happens
    (.presented t identity.sessionId identity.bearerToken)

def runSection (st : State T) (t : Nat) : Option (State T) :=
  match st.calls t with
  | .storeToken identity => some ((present st t identity).goto t (.serve identity))
  | .serve identity => some ((st.setServer t .running).goto t (.handshake identity))
  | .removeToken sessionId =>
    some (({ st with tokens := st.tokens.removeToken sessionId }.happens
      (.tokenForgotten sessionId)).goto t (.removeState sessionId))
  | .removeState sessionId =>
    some (({ st with sessions := (st.sessions.remove st.clock .ok sessionId).1 }.happens
      (.dataForgotten sessionId)).goto t .forgotten)
  | _ => none

def step (st : State T) : Label T → Option (State T)
  | .tick d unix => some { st with clock := ⟨st.clock.now + d, unix⟩ }
  | .connect t identity =>
    match st.calls t with
    | .idle => some (st.goto t (checked tokenMode identity))
    | _ => none
  | .forgetSession t sessionId =>
    match st.calls t with
    | .idle => some (st.goto t (.removeToken sessionId))
    | _ => none
  | .run t => runSection st t
  | .shake t answer =>
    match st.calls t with
    | .handshake identity =>
      match answer with
      | .ok () => some (st.goto t (.opened identity))
      -- Nothing will ever close the transport from this side.
      | .error e => some ((st.setServer t .ended).goto t (.failed (.initializeFailed e)))
    | _ => none
  | .resolveToken t env extensions =>
    match st.calls t with
    | .opened identity =>
      some { st with
        tokens := (McpFramework.resolveToken env st.tokens
          (enrichExtensions (some identity) extensions)).store }
    | _ => none
  | .data t extensions call =>
    match st.calls t with
    | .opened identity =>
      let sessionId := identity.session extensions
      some ({ st with sessions := call.apply st.sessions st.clock sessionId }.happens
        (.dataUsed sessionId))
    | _ => none
  | .close t =>
    match st.calls t with
    | .opened _ => some ((st.setServer t .ended).goto t .closed)
    | _ => none
  | .serverEnds t => if st.servers t = .running then some (st.setServer t .ended) else none
  | .drop t =>
    match st.calls t with
    | .storeToken _ => some (st.goto t .dropped)
    | .serve _ => some (st.goto t .dropped)
    -- The handle of the server task goes without an abort.
    | .handshake _ => some (st.goto t .dropped)
    | .removeToken _ => some (st.goto t .dropped)
    | .removeState _ => some (st.goto t .dropped)
    | _ => none

def system : System (State T) (Label T) := ⟨step tokenMode⟩

def init (clock : Clock) (ttl : Nat) : State T :=
  { clock := clock, tokens := .new false none, sessions := .new ttl none
    calls := fun _ => .idle, servers := fun _ => .unspawned, events := [] }

end Sections

/-! ## What took effect last -/

/-- The credential that a name was last given. -/
def credential : List Event → String → Option String
  | [], _ => none
  | .presented _ sessionId bearerToken :: earlier, name =>
    if sessionId = name then bearerToken else credential earlier name
  | .tokenForgotten sessionId :: earlier, name =>
    if sessionId = name then none else credential earlier name
  | _ :: earlier, name => credential earlier name

/-- Whether the data of a name was used since it was last forgotten. -/
def used : List Event → String → Bool
  | [], _ => false
  | .dataUsed sessionId :: earlier, name => sessionId == name || used earlier name
  | .dataForgotten sessionId :: earlier, name => sessionId != name && used earlier name
  | _ :: earlier, name => used earlier name

/-- The event gives a name another credential. -/
def Event.replaces (name : String) : Event → Bool
  | .presented _ sessionId _ => sessionId == name
  | .tokenForgotten sessionId => sessionId == name
  | _ => false

/-- What a session has presented is its credential until that is replaced. -/
theorem credential_of_kept {later earlier : List Event} {t : Nat} {name : String}
    {bearerToken : Option String} (hkept : ∀ e ∈ later, e.replaces name = false) :
    credential (later ++ .presented t name bearerToken :: earlier) name = bearerToken := by
  induction later with
  | nil => exact if_pos rfl
  | cons e later ih =>
    obtain ⟨he, hlater⟩ := List.forall_mem_cons.mp hkept
    rw [List.cons_append]
    cases e with
    | presented u sessionId bearer =>
      have hne : sessionId ≠ name := by simpa [Event.replaces] using he
      rw [credential, if_neg hne]
      exact ih hlater
    | tokenForgotten sessionId =>
      have hne : sessionId ≠ name := by simpa [Event.replaces] using he
      rw [credential, if_neg hne]
      exact ih hlater
    | dataUsed sessionId => exact ih hlater
    | dataForgotten sessionId => exact ih hlater

/-! ## The stores -/

section Stores

variable {T : Type} {tokens : TokenStore} {sessions : SessionStore T} {events : List Event}
  {name : String}

/-- The token store holds for every name what it was last given, and is without a
backend. -/
structure TokensSound (events : List Event) (tokens : TokenStore) : Prop where
  held : ∀ name, tokens.tokens.get? name =
    (credential events name).map fun token => ⟨token, none, none⟩
  backend : tokens.persistence = none

structure DataSound (events : List Event) (sessions : SessionStore T) : Prop where
  unused : ∀ name, used events name = false → sessions.sessions.get? name = none
  backend : sessions.persistence = none

theorem TokensSound.present (h : TokensSound events tokens) (clock : Clock) (t : Nat)
    (sessionId token : String) :
    TokensSound (.presented t sessionId (some token) :: events)
      (tokens.storeToken clock sessionId ⟨token, none, none⟩) := by
  refine ⟨fun name => ?_, ?_⟩
  · show (tokens.tokens.insert sessionId _).get? name = _
    rw [HashMap.get?_insert, credential]
    by_cases hname : name = sessionId
    · rw [if_pos hname, if_pos hname.symm]
      rfl
    · rw [if_neg hname, if_neg fun heq => hname heq.symm]
      exact h.held name
  · rw [TokenStore.storeToken, TokenStore.updateBackend, h.backend]
    rfl

/-- A name without a credential. -/
theorem TokensSound.remove (h : TokensSound events tokens) {sessionId : String} {e : Event}
    (he : ∀ name, credential (e :: events) name =
      if sessionId = name then none else credential events name) :
    TokensSound (e :: events) (tokens.removeToken sessionId) := by
  refine ⟨fun name => ?_, ?_⟩
  · show (tokens.tokens.remove sessionId).get? name = _
    rw [HashMap.get?_remove, he]
    by_cases hname : name = sessionId
    · rw [if_pos hname, if_pos hname.symm]
      rfl
    · rw [if_neg hname, if_neg fun heq => hname heq.symm]
      exact h.held name
  · rw [TokenStore.removeToken, TokenStore.updateBackend, h.backend]
    rfl

/-- A lookup finds what the name was last given, and changes nothing. -/
theorem TokensSound.getToken (h : TokensSound events tokens) (clock : Clock) (endpoint : Endpoint)
    (name : String) :
    tokens.getToken clock endpoint name =
      ⟨tokens, (credential events name).map fun token => ⟨token, none, none⟩, []⟩ := by
  have hheld := h.held name
  rw [TokenStore.getToken, TokenStore.getTokenRaw, hheld]
  cases credential events name with
  | some token => rfl
  | none =>
    rw [TokenStore.loadTokenFromBackend, TokenStore.record, h.backend]
    rfl

/-- The parts of an identity carry the extension it was given. -/
theorem buildParts_requestToken {identity : LoopbackIdentity} {parts : Parts}
    (h : identity.buildParts = .ok parts) :
    parts.requestToken = identity.requestTokenExtension := by
  unfold LoopbackIdentity.buildParts at h
  cases hsid : LoopbackIdentity.header [] MCP_SESSION_ID_HEADER identity.sessionId with
  | error e =>
    rw [hsid] at h
    cases h
  | ok headers =>
    rw [hsid] at h
    cases htoken : identity.bearerToken with
    | none =>
      rw [htoken] at h
      cases h
      rfl
    | some token =>
      rw [htoken] at h
      cases hbearer : LoopbackIdentity.header headers AUTHORIZATION_HEADER ("Bearer " ++ token) with
      | error e =>
        simp only [bind, Except.bind, hbearer] at h
        cases h
      | ok headers' =>
        simp only [bind, Except.bind, hbearer] at h
        cases h
        rfl

/-- No accepted identity brings a credential that nothing validated. -/
theorem requestToken_of_validate {identity : LoopbackIdentity} {parts : Parts}
    (hvalid : identity.validate = .ok ()) (hparts : identity.toParts = some parts) :
    parts.requestToken = none := by
  have hnone : identity.requestTokenExtension = none := by
    unfold LoopbackIdentity.validate at hvalid
    split at hvalid
    · cases hvalid
    split at hvalid
    · cases hvalid
    · next hextensions =>
      rw [Bool.or_eq_true, not_or] at hextensions
      simpa using hextensions.1
  rw [LoopbackIdentity.toParts] at hparts
  cases hbuilt : identity.buildParts with
  | error e =>
    rw [hbuilt] at hparts
    cases hparts
  | ok built =>
    rw [hbuilt] at hparts
    cases hparts
    rw [buildParts_requestToken hbuilt, hnone]

/-- The token of a call is that of its session. -/
theorem TokensSound.resolveToken (h : TokensSound events tokens) {identity : LoopbackIdentity}
    (hvalid : identity.validate = .ok ()) (env : Surroundings) (extensions : Option Parts) :
    McpFramework.resolveToken env tokens (enrichExtensions (some identity) extensions) =
      ⟨tokens, (credential events (identity.session extensions)).map fun token =>
        ⟨token, none, none⟩, []⟩ := by
  obtain ⟨value, parts, -, hparts, -⟩ := LoopbackIdentity.toParts_of_validate hvalid
  have henriched : enrichExtensions (some identity) extensions = some parts := by
    rw [enrichExtensions, Option.bind_some, hparts]
  rw [LoopbackIdentity.session, henriched, McpFramework.resolveToken, Option.bind_some,
    requestToken_of_validate hvalid hparts]
  exact h.getToken env.clock env.endpoint _

/-! ### Session data -/

theorem load_of_unbacked (hb : sessions.persistence = none) (clock : Clock)
    (answers : BackendAnswers) (name : String) :
    sessions.loadSessionFromBackend clock answers name = (sessions, none) := by
  rw [SessionStore.loadSessionFromBackend, SessionStore.record, hb]
  rfl

theorem touch_of_unbacked (hb : sessions.persistence = none) (clock : Clock)
    (answers : BackendAnswers) (name : String) (data : T) :
    sessions.touch clock answers name data = sessions.setEntry clock name data := by
  have hset : ∀ p, (sessions.setEntry clock name data).setRecord name p =
      sessions.setEntry clock name data := fun p => by
    rw [SessionStore.setRecord, SessionStore.setEntry, hb]
    rfl
  rw [SessionStore.touch, SessionStore.persistEntry]
  split
  · exact hset _
  · rfl

/-- Without a backend an operation on a session leaves the others as they are. -/
structure Local (name : String) (sessions sessions' : SessionStore T) : Prop where
  others : ∀ other, other ≠ name → sessions'.sessions.get? other = sessions.sessions.get? other
  backend : sessions'.persistence = none

theorem local_setEntry (hb : sessions.persistence = none) (clock : Clock) (name : String)
    (data : T) : Local name sessions (sessions.setEntry clock name data) :=
  ⟨fun _ hother => HashMap.get?_insert_of_ne _ _ hother, hb⟩

theorem remove_of_unbacked (hb : sessions.persistence = none) (clock : Clock)
    (answers : BackendAnswers) (name : String) :
    (sessions.remove clock answers name).1 =
      { sessions with sessions := sessions.sessions.remove name } := by
  have hset : ∀ p, ({ sessions with sessions := sessions.sessions.remove name } :
      SessionStore T).setRecord name p =
      { sessions with sessions := sessions.sessions.remove name } := fun p => by
    rw [SessionStore.setRecord, hb]
    rfl
  rw [SessionStore.remove, load_of_unbacked hb]
  dsimp only
  split
  · exact hset none
  · rfl

theorem local_remove (hb : sessions.persistence = none) (clock : Clock)
    (answers : BackendAnswers) (name : String) :
    Local name sessions (sessions.remove clock answers name).1 := by
  rw [remove_of_unbacked hb]
  refine ⟨fun other hother => ?_, hb⟩
  show (sessions.sessions.remove name).get? other = _
  rw [HashMap.get?_remove, if_neg hother]

theorem DataSound.forget (h : DataSound events sessions) (clock : Clock) (name : String) :
    DataSound (.dataForgotten name :: events) (sessions.remove clock .ok name).1 := by
  have hlocal := local_remove h.backend clock .ok name
  refine ⟨fun other hunused => ?_, hlocal.backend⟩
  by_cases hother : other = name
  · subst hother
    rw [remove_of_unbacked h.backend]
    exact HashMap.get?_remove_self ..
  · rw [used, Bool.and_eq_false_iff, bne_eq_false_iff_eq] at hunused
    rw [hlocal.others other hother]
    exact h.unused other (hunused.resolve_left fun heq => hother heq.symm)

variable [Inhabited T]

theorem DataCall.local_apply (call : DataCall T) (hb : sessions.persistence = none)
    (clock : Clock) (name : String) : Local name sessions (call.apply sessions clock name) := by
  cases call with
  | get =>
    rw [DataCall.apply, SessionStore.get, load_of_unbacked hb]
    dsimp only
    split
    · rw [touch_of_unbacked hb]
      exact local_setEntry hb clock name _
    · exact ⟨fun _ _ => rfl, hb⟩
  | getOrCreate =>
    rw [DataCall.apply, SessionStore.getOrCreate, load_of_unbacked hb]
    dsimp only
    rw [touch_of_unbacked hb]
    exact local_setEntry hb clock name _
  | update f =>
    rw [DataCall.apply, SessionStore.update, load_of_unbacked hb]
    dsimp only
    rw [touch_of_unbacked hb]
    exact local_setEntry hb clock name _
  | remove => exact local_remove hb clock .ok name

theorem DataSound.use (h : DataSound events sessions) (call : DataCall T) (clock : Clock)
    (name : String) : DataSound (.dataUsed name :: events) (call.apply sessions clock name) := by
  have hlocal := call.local_apply h.backend clock name
  refine ⟨fun other hunused => ?_, hlocal.backend⟩
  rw [used, Bool.or_eq_false_iff, beq_eq_false_iff_ne] at hunused
  rw [hlocal.others other hunused.1.symm]
  exact h.unused other hunused.2

/-- An unused name has no data. -/
theorem DataSound.startsOver (h : DataSound events sessions) {name : String}
    (hunused : used events name = false) (clock : Clock) :
    SessionStore.StartsOver sessions clock name := by
  refine (SessionStore.startsOver_iff_cached fun p hp => ?_).mpr (h.unused name hunused)
  rw [SessionStore.record, h.backend] at hp
  cases hp

end Stores

/-! ## The invariant -/

/-- The identity a call was let through with. -/
def Pc.identity : Pc → Option LoopbackIdentity
  | .storeToken identity => some identity
  | .serve identity => some identity
  | .handshake identity => some identity
  | .opened identity => some identity
  | _ => none

/-- The credentials of the call are in the store. -/
def Pc.hasPresented : Pc → Bool
  | .serve _ => true
  | .handshake _ => true
  | .opened _ => true
  | _ => false

/-- A task that serves the call may be running. -/
def Pc.served : Pc → Bool
  | .handshake _ => true
  | .opened _ => true
  | .dropped => true
  | _ => false

structure Accepted (tokenMode : TokenMode) (identity : LoopbackIdentity) : Prop where
  valid : identity.validate = .ok ()
  bare : tokenMode = .opaqueTokens → identity.bearerToken = none

structure Inv {T : Type} (tokenMode : TokenMode) (st : State T) : Prop where
  tokens : TokensSound st.events st.tokens
  data : DataSound st.events st.sessions
  accepted : ∀ t identity, (st.calls t).identity = some identity → Accepted tokenMode identity
  presented : ∀ t identity, (st.calls t).identity = some identity →
    (st.calls t).hasPresented = true →
      .presented t identity.sessionId identity.bearerToken ∈ st.events
  bare : tokenMode = .opaqueTokens →
    ∀ t sessionId bearerToken, .presented t sessionId bearerToken ∈ st.events → bearerToken = none
  served : ∀ t, st.servers t = .running → (st.calls t).served = true

/-- Without a credential presented no name has one. -/
theorem credential_of_bare {events : List Event}
    (hbare : ∀ t sessionId bearerToken, .presented t sessionId bearerToken ∈ events →
      bearerToken = none) (name : String) : credential events name = none := by
  induction events with
  | nil => rfl
  | cons e earlier ih =>
    have hearlier := ih fun t s b hb => hbare t s b (List.mem_cons_of_mem _ hb)
    cases e with
    | presented t sessionId bearerToken =>
      rw [credential, hearlier, hbare t sessionId bearerToken (List.mem_cons_self ..), ite_self]
    | tokenForgotten sessionId => rw [credential, hearlier, ite_self]
    | dataUsed sessionId => exact hearlier
    | dataForgotten sessionId => exact hearlier

section Steps

variable {T : Type} {tokenMode : TokenMode} {st st' : State T}

theorem Inv.init (clock : Clock) (ttl : Nat) :
    Inv tokenMode (LoopbackSessions.init (T := T) clock ttl) where
  tokens := ⟨fun _ => rfl, rfl⟩
  data := ⟨fun _ _ => rfl, rfl⟩
  accepted _ _ h := by cases h
  presented _ _ h := by cases h
  bare _ _ _ _ h := by cases h
  served _ h := by cases h

/-- A call moves on, and brings what the next place asks for. -/
theorem Inv.goto (h : Inv tokenMode st) (t : Nat) (pc : Pc)
    (haccepted : ∀ identity, pc.identity = some identity → Accepted tokenMode identity)
    (hpresented : ∀ identity, pc.identity = some identity → pc.hasPresented = true →
      .presented t identity.sessionId identity.bearerToken ∈ st.events)
    (hserved : st.servers t = .running → pc.served = true) :
    Inv tokenMode (st.goto t pc) :=
  { h with
    accepted := (forall_update_iff (P := fun _ (pc : Pc) =>
      ∀ identity, pc.identity = some identity → Accepted tokenMode identity)).mpr
        ⟨haccepted, fun u _ => h.accepted u⟩
    presented := (forall_update_iff (P := fun t (pc : Pc) =>
      ∀ identity, pc.identity = some identity → pc.hasPresented = true →
        Event.presented t identity.sessionId identity.bearerToken ∈ st.events)).mpr
        ⟨hpresented, fun u _ => h.presented u⟩
    served := (forall_update_iff (P := fun t (pc : Pc) =>
      st.servers t = .running → pc.served = true)).mpr ⟨hserved, fun u _ => h.served u⟩ }

/-- A call comes to a place that keeps no identity. -/
theorem Inv.leave (h : Inv tokenMode st) (t : Nat) {pc : Pc} (hpc : pc.identity = none)
    (hserved : st.servers t = .running → pc.served = true) : Inv tokenMode (st.goto t pc) := by
  refine h.goto t pc (fun identity hidentity => ?_) (fun identity hidentity => ?_) hserved
  · rw [hpc] at hidentity
    cases hidentity
  · rw [hpc] at hidentity
    cases hidentity

/-- Something takes effect in one of the stores. -/
theorem Inv.happens (h : Inv tokenMode st) {e : Event} {tokens : TokenStore}
    {sessions : SessionStore T} (htokens : TokensSound (e :: st.events) tokens)
    (hdata : DataSound (e :: st.events) sessions)
    (hbare : tokenMode = .opaqueTokens → ∀ t sessionId bearerToken,
      e = .presented t sessionId bearerToken → bearerToken = none) :
    Inv tokenMode (({ st with tokens := tokens, sessions := sessions } : State T).happens e) :=
  { h with
    tokens := htokens
    data := hdata
    presented := fun u identity hidentity hpresented =>
      List.mem_cons_of_mem _ (h.presented u identity hidentity hpresented)
    bare := fun hmode u sessionId bearerToken hmem =>
      (List.mem_cons.mp hmem).elim (fun heq => hbare hmode u sessionId bearerToken heq.symm)
        (h.bare hmode u sessionId bearerToken) }

theorem Inv.setServer (h : Inv tokenMode st) (t : Nat) (server : Server)
    (hserved : server = .running → (st.calls t).served = true) :
    Inv tokenMode (st.setServer t server) :=
  { h with
    served := (forall_update_iff (P := fun t server =>
      server = Server.running → (st.calls t).served = true)).mpr
        ⟨hserved, fun u _ => h.served u⟩ }

/-- A server that has ended serves nothing. -/
theorem Inv.endServer (h : Inv tokenMode st) (t : Nat) {pc : Pc} (hpc : pc.identity = none) :
    Inv tokenMode ((st.setServer t .ended).goto t pc) := by
  refine (h.setServer t .ended fun hrunning => nomatch hrunning).leave t hpc fun hrunning => ?_
  have hended : Function.update st.servers t .ended t = .running := hrunning
  rw [Function.update_self] at hended
  cases hended

/-- Before its server is spawned a call has none. -/
theorem Inv.unserved (h : Inv tokenMode st) {t : Nat} (hpc : (st.calls t).served = false) :
    st.servers t ≠ .running := fun hrunning => by
  rw [h.served t hrunning] at hpc
  cases hpc

theorem accepted_of_checked {identity accepted : LoopbackIdentity}
    (h : (checked tokenMode identity).identity = some accepted) : Accepted tokenMode accepted := by
  unfold checked at h
  split at h
  · cases h
  · next hvalid =>
    split at h
    · cases h
    · next hresolvable =>
      cases h
      refine ⟨hvalid, fun hmode => ?_⟩
      have hnone := fun hsome => hresolvable ⟨hmode, hsome⟩
      simpa using hnone

theorem hasPresented_checked (identity : LoopbackIdentity) :
    (checked tokenMode identity).hasPresented = false := by
  unfold checked
  split
  · rfl
  · split <;> rfl

theorem DataSound.frame {events : List Event} {sessions : SessionStore T}
    (h : DataSound events sessions) {e : Event} (he : ∀ name, used (e :: events) name = used events name) :
    DataSound (e :: events) sessions :=
  ⟨fun name hunused => h.unused name ((he name).symm.trans hunused), h.backend⟩

theorem TokensSound.frame {events : List Event} {tokens : TokenStore}
    (h : TokensSound events tokens) {e : Event} (he : ∀ name, credential (e :: events) name = credential events name) :
    TokensSound (e :: events) tokens :=
  ⟨fun name => by rw [he name]; exact h.held name, h.backend⟩

/-- Whatever the store held under the name is replaced, by no credential too. -/
theorem Inv.present (h : Inv tokenMode st) {t : Nat} {identity : LoopbackIdentity}
    (hpc : st.calls t = .storeToken identity) :
    Inv tokenMode ((present st t identity).goto t (.serve identity)) := by
  have haccepted : Accepted tokenMode identity := h.accepted t identity (by rw [hpc]; rfl)
  have hunserved := h.unserved (t := t) (by rw [hpc]; rfl)
  have htokens : TokensSound
      (.presented t identity.sessionId identity.bearerToken :: st.events)
      (LoopbackSessions.present st t identity).tokens := by
    unfold LoopbackSessions.present
    cases hbearer : identity.bearerToken with
    | some token => exact h.tokens.present st.clock t identity.sessionId token
    | none => exact h.tokens.remove fun name => rfl
  have hnext := h.happens htokens (h.data.frame fun name => rfl) fun hmode u s b heq => by
    cases heq
    exact haccepted.bare hmode
  refine hnext.goto t _ (fun accepted hidentity => ?_) (fun accepted hidentity _ => ?_)
    fun hrunning => absurd hrunning hunserved
  · cases hidentity
    exact haccepted
  · cases hidentity
    exact List.mem_cons_self ..

/-- The section a call runs. -/
theorem Inv.run (h : Inv tokenMode st) {t : Nat} (hs : runSection st t = some st') :
    Inv tokenMode st' := by
  unfold runSection at hs
  split at hs
  · next identity hpc =>
    cases hs
    exact h.present hpc
  · next identity hpc =>
    cases hs
    have hpresented := h.presented t identity (by rw [hpc]; rfl) (by rw [hpc]; rfl)
    have haccepted := h.accepted t identity (by rw [hpc]; rfl)
    have hmoved : Inv tokenMode (st.goto t (.handshake identity)) := by
      refine h.goto t _ (fun i hi => ?_) (fun i hi _ => ?_) fun _ => rfl
      · cases hi
        exact haccepted
      · cases hi
        exact hpresented
    refine hmoved.setServer t .running fun _ => ?_
    show (Function.update st.calls t (.handshake identity) t).served = true
    rw [Function.update_self]
    rfl
  · next sessionId hpc =>
    cases hs
    have hunserved := h.unserved (t := t) (by rw [hpc]; rfl)
    have htokens : TokensSound (.tokenForgotten sessionId :: st.events)
        (st.tokens.removeToken sessionId) := h.tokens.remove fun name => rfl
    have hnext := h.happens htokens (h.data.frame fun name => rfl)
      fun _ _ _ _ heq => nomatch heq
    exact hnext.leave t rfl fun hrunning => absurd hrunning hunserved
  · next sessionId hpc =>
    cases hs
    have hunserved := h.unserved (t := t) (by rw [hpc]; rfl)
    have hnext := h.happens (h.tokens.frame fun name => rfl) (h.data.forget st.clock sessionId)
      fun _ _ _ _ heq => nomatch heq
    exact hnext.leave t rfl fun hrunning => absurd hrunning hunserved
  · cases hs

theorem Inv.step [Inhabited T] (h : Inv tokenMode st) {l : Label T}
    (hs : step tokenMode st l = some st') : Inv tokenMode st' := by
  cases l with
  | tick d unix =>
    cases hs
    exact { h with }
  | connect t identity =>
    simp only [LoopbackSessions.step] at hs
    split at hs <;> cases hs
    next hpc =>
    have hunserved := h.unserved (t := t) (by rw [hpc]; rfl)
    refine h.goto t _ (fun _ hi => accepted_of_checked hi) (fun _ _ hpresented => ?_)
      fun hrunning => absurd hrunning hunserved
    rw [hasPresented_checked] at hpresented
    cases hpresented
  | forgetSession t sessionId =>
    simp only [LoopbackSessions.step] at hs
    split at hs <;> cases hs
    next hpc =>
    have hunserved := h.unserved (t := t) (by rw [hpc]; rfl)
    exact h.leave t rfl fun hrunning => absurd hrunning hunserved
  | run t => exact h.run hs
  | shake t answer =>
    simp only [LoopbackSessions.step] at hs
    split at hs
    case h_2 => cases hs
    case h_1 identity hpc =>
    split at hs <;> cases hs
    · have hpresented := h.presented t identity (by rw [hpc]; rfl) (by rw [hpc]; rfl)
      have haccepted := h.accepted t identity (by rw [hpc]; rfl)
      refine h.goto t _ (fun i hi => ?_) (fun i hi _ => ?_) fun _ => rfl
      · cases hi
        exact haccepted
      · cases hi
        exact hpresented
    · exact h.endServer t rfl
  | resolveToken t env extensions =>
    simp only [LoopbackSessions.step] at hs
    split at hs <;> cases hs
    next identity hpc =>
    have haccepted := h.accepted t identity (by rw [hpc]; rfl)
    rw [h.tokens.resolveToken haccepted.valid]
    exact { h with }
  | data t extensions call =>
    simp only [LoopbackSessions.step] at hs
    split at hs <;> cases hs
    next identity hpc =>
    exact h.happens (h.tokens.frame fun name => rfl)
      (h.data.use call st.clock (identity.session extensions)) fun _ _ _ _ heq => nomatch heq
  | close t =>
    simp only [LoopbackSessions.step] at hs
    split at hs <;> cases hs
    exact h.endServer t rfl
  | serverEnds t =>
    simp only [LoopbackSessions.step] at hs
    split at hs <;> cases hs
    exact h.setServer t .ended fun hrunning => nomatch hrunning
  | drop t =>
    -- Wherever the future waits, nothing of its identity is left.
    have hdropped : Inv tokenMode (st.goto t .dropped) := h.leave t rfl fun _ => rfl
    simp only [LoopbackSessions.step] at hs
    split at hs <;> cases hs <;> exact hdropped

/-! ## Every run -/

/-- **Sessions of a loopback endpoint have the credential of their name.** In every
interleaving of connects, calls, closing sessions and names that are forgotten:

* an open session has presented its credentials, a call in it has the one that its
  name was last given, and those are its own unless another connect or a forgotten
  name has replaced them. A name that no header can be read back as shares the
  credential of the default session;
* where tokens are opaque no name has a credential;
* a name whose data was not used since it was forgotten starts over;
* a task that serves is that of a handshake, of an open session, or of a connect
  that was dropped. -/
theorem loopback_sessions_keep_apart [Inhabited T] {clock : Clock} {ttl : Nat}
    (hr : (system tokenMode).Reach (fun _ _ => True) (init clock ttl) st) :
    (∀ t identity, st.calls t = .opened identity →
      (∀ env extensions,
        McpFramework.resolveToken env st.tokens (enrichExtensions (some identity) extensions) =
          ⟨st.tokens, (credential st.events (identity.session extensions)).map fun token =>
            ⟨token, none, none⟩, []⟩) ∧
      (∀ extensions, (Visible identity.sessionId →
          identity.session extensions = identity.sessionId) ∧
        (¬ Visible identity.sessionId → identity.session extensions = DEFAULT_SESSION_ID)) ∧
      ∃ later earlier, st.events =
          later ++ .presented t identity.sessionId identity.bearerToken :: earlier ∧
        ((∀ e ∈ later, e.replaces identity.sessionId = false) →
          credential st.events identity.sessionId = identity.bearerToken)) ∧
    (tokenMode = .opaqueTokens → ∀ name, credential st.events name = none) ∧
    (∀ name, used st.events name = false → st.sessions.StartsOver st.clock name) ∧
    ∀ t, st.servers t = .running → (st.calls t).served = true := by
  have h : Inv tokenMode st := hr.invariant (.init clock ttl) fun _ _ _ h _ hs => h.step hs
  refine ⟨fun t identity hopened => ⟨?_, ?_, ?_⟩, fun hmode => credential_of_bare (h.bare hmode),
    fun name hunused => h.data.startsOver hunused st.clock, h.served⟩
  · have haccepted := h.accepted t identity (by rw [hopened]; rfl)
    exact h.tokens.resolveToken haccepted.valid
  · have haccepted := h.accepted t identity (by rw [hopened]; rfl)
    exact LoopbackIdentity.session_of_validate haccepted.valid
  · have hpresented := h.presented t identity (by rw [hopened]; rfl) (by rw [hopened]; rfl)
    obtain ⟨later, earlier, hevents⟩ := List.append_of_mem hpresented
    refine ⟨later, earlier, hevents, fun hkept => ?_⟩
    rw [hevents]
    exact credential_of_kept hkept

end Steps

/-! ## A name that is used again -/

/-- An anonymous session is open when a caller with a bearer connects under its name. -/
def reused : List (Label Unit) :=
  [.connect 0 (.new "thread-42"), .run 0, .run 0, .shake 0 (.ok ()),
    .connect 1 ((LoopbackIdentity.new "thread-42").withBearerToken "jwt"), .run 1]

theorem reused_runs :
    ((system .passthrough).run (fun _ _ => True) (init ⟨0, 0⟩ 60) reused).isSome = true := by
  decide +kernel

def afterReused : State Unit :=
  ((system .passthrough).run (fun _ _ => True) (init ⟨0, 0⟩ 60) reused).get reused_runs

/-- The open session sees the bearer presented after it. -/
theorem reused_name_shares_its_credential :
    (credential afterReused.events "thread-42" = some "jwt" ∧
      afterReused.calls 0 = .opened (.new "thread-42")) ∧
    ∀ env, McpFramework.resolveToken env afterReused.tokens
        (enrichExtensions (some (.new "thread-42")) none) =
      ⟨afterReused.tokens, some ⟨"jwt", none, none⟩, []⟩ := by
  have hopened : afterReused.calls 0 = .opened (.new "thread-42") := rfl
  have hcredential : credential afterReused.events "thread-42" = some "jwt" := by decide +kernel
  have hr : (system .passthrough).Reach (fun _ _ => True) (init ⟨0, 0⟩ 60) afterReused :=
    System.reach_get reused_runs
  obtain ⟨htoken, hsession, -⟩ :=
    (loopback_sessions_keep_apart hr).1 0 (.new "thread-42") hopened
  refine ⟨⟨hcredential, hopened⟩, fun env => ?_⟩
  have hname : (LoopbackIdentity.new "thread-42").session none = "thread-42" :=
    (hsession none).1 (Visible.of_all (by decide))
  rw [htoken env none, hname, hcredential]
  rfl

end McpFramework.LoopbackSessions
