import McpFramework.Core.Time
import McpFramework.Lib.HashMap
import McpFramework.Lib.Transition

/-!
# Auth — ProxiedAuthorization

The authorizations of clients that are under way at the authorization server:
parked by `/oauth/authorize`, taken and forwarded by `/oauth/callback`
(`auth/store.rs`, `auth/routes.rs`), on any number of instances over one backend,
cut at their awaits.

A parked authorization is in the memory of the parking instance and in the
backend, and a callback takes it from where it finds it first. Both copies are
never taken at once, and the backend's is read before it is deleted.
-/

namespace McpFramework.ProxiedProtocol

open Lib

def PROXIED_AUTH_TIMEOUT : Nat := Duration.fromSecs 600

/-! ## Forwarding -/

structure ProxiedAuthorization where
  redirectUri : String
  clientState : Option String
  issuer : String

structure CallbackQuery where
  code : Option String
  state : String
  error : Option String
  errorDescription : Option String
  errorUri : Option String

/-- A redirect: the URI and the query parameters appended to it. -/
structure Location where
  target : String
  pairs : List (String × String)

inductive HttpError where
  | badRequest (message : String)
  | internal (message : String)

def optionalPair (name : String) (value : Option String) : List (String × String) :=
  (value.map fun value => (name, value)).toList

/-- `parses` says which strings are URLs. -/
def forwardProxiedCallback (parses : String → Bool) (proxied : ProxiedAuthorization)
    (query : CallbackQuery) : Except HttpError Location :=
  let location (answer : List (String × String)) : Location :=
    { target := proxied.redirectUri
      pairs := answer ++ optionalPair "state" proxied.clientState ++ [("iss", proxied.issuer)] }
  if parses proxied.redirectUri then
    match query.code, query.error with
    | some code, none => .ok (location [("code", code)])
    | _, some error =>
      .ok (location ([("error", error)] ++
        optionalPair "error_description" query.errorDescription ++
        optionalPair "error_uri" query.errorUri))
    | none, none =>
      .error (.badRequest "Authorization response carries neither code nor error")
  else .error (.internal "Invalid stored redirect_uri")

/-- A response goes where its client asked for it, with the client's state. -/
theorem forwardProxiedCallback_ok {parses : String → Bool} {proxied : ProxiedAuthorization}
    {query : CallbackQuery} {location : Location}
    (h : forwardProxiedCallback parses proxied query = .ok location) :
    location.target = proxied.redirectUri ∧
      location.pairs.lookup "state" = proxied.clientState := by
  have hstate : ∀ answer : List (String × String), answer.lookup "state" = none →
      (answer ++ optionalPair "state" proxied.clientState ++ [("iss", proxied.issuer)]).lookup
        "state" = proxied.clientState := fun answer hnone => by
    rw [List.append_assoc, List.lookup_append, hnone]
    cases proxied.clientState <;> simp [optionalPair]
  unfold forwardProxiedCallback at h
  split at h
  · split at h <;> cases h
    · exact ⟨rfl, hstate _ rfl⟩
    · refine ⟨rfl, hstate _ ?_⟩
      cases query.errorDescription <;> cases query.errorUri <;>
        simp [optionalPair, List.lookup_cons]
  · cases h

/-! ## The steps -/

inductive Pc where
  | idle
  | park (serverState : String) (auth : ProxiedAuthorization)
  | persist (serverState : String) (auth : ProxiedAuthorization)
  | takeLocal (query : CallbackQuery)
  | dropLocal (query : CallbackQuery) (auth : ProxiedAuthorization) (created : Nat)
  | readThrough (query : CallbackQuery)
  | dropBackend (query : CallbackQuery) (auth : ProxiedAuthorization)
  | done (response : Option (Except HttpError Location))

structure Task where
  inst : Nat
  pc : Pc

/-- Ghost: a callback has found an authorization and is still to delete it. -/
structure Held where
  task : Nat
  serverState : String
  fromBackend : Bool

/-- Ghost: a response that was sent to a client. -/
structure Forwarded where
  serverState : String
  location : Location
  instant : Nat

/-- An entry of the backend ends at its deadline. `minted` and all below are
ghost: the server states that were made up, what was parked under them and
when, and where the callbacks are with it. -/
structure State where
  now : Nat
  proxiedAuths : Nat → HashMap String (ProxiedAuthorization × Nat)
  backend : HashMap String (ProxiedAuthorization × Nat)
  tasks : Nat → Task
  minted : List String
  parked : String → Option (ProxiedAuthorization × Nat)
  held : List Held
  forwarded : List Forwarded

inductive Label where
  | tick (d : Nat)
  | authorize (t inst : Nat) (serverState : String) (auth : ProxiedAuthorization)
  | callback (t inst : Nat) (query : CallbackQuery)
  /-- Task `t` runs its next section. -/
  | run (t : Nat)

def init : State :=
  { now := 0, proxiedAuths := fun _ => HashMap.empty, backend := HashMap.empty
    tasks := fun _ => { inst := 0, pc := .idle }
    minted := [], parked := fun _ => none, held := [], forwarded := [] }

namespace State

def goto (st : State) (t : Nat) (pc : Pc) : State :=
  { st with tasks := Function.update st.tasks t { st.tasks t with pc := pc } }

/-- The parked authorizations in the memory of a task's instance. -/
def proxied (st : State) (t : Nat) : HashMap String (ProxiedAuthorization × Nat) :=
  st.proxiedAuths (st.tasks t).inst

def setProxied (st : State) (t : Nat) (proxied : HashMap String (ProxiedAuthorization × Nat)) :
    State :=
  { st with proxiedAuths := Function.update st.proxiedAuths (st.tasks t).inst proxied }

/-- What a read of the backend answers. -/
def stored (st : State) (serverState : String) : Option ProxiedAuthorization :=
  ((st.backend.get? serverState).filter fun entry => decide (st.now < entry.2)).map (·.1)

def delete (st : State) (serverState : String) : State :=
  { st with backend := st.backend.remove serverState }

def hold (st : State) (t : Nat) (serverState : String) (fromBackend : Bool) : State :=
  { st with held := ⟨t, serverState, fromBackend⟩ :: st.held }

def letGo (st : State) (t : Nat) : State :=
  { st with held := st.held.filter fun h => decide (h.task ≠ t) }

end State

section Sections

variable (parses : String → Bool)

/-- The end of a callback that has taken an authorization. -/
def forward (st : State) (t : Nat) (query : CallbackQuery) (auth : ProxiedAuthorization) : State :=
  let response := forwardProxiedCallback parses auth query
  let st := (st.letGo t).goto t (.done (some response))
  match response with
  | .ok location => { st with forwarded := ⟨query.state, location, st.now⟩ :: st.forwarded }
  | .error _ => st

def runSection (st : State) (t : Nat) : Option State :=
  match (st.tasks t).pc with
  | .idle => none
  | .park serverState auth =>
    let proxied :=
      (st.proxied t).retain fun _ entry => decide (st.now - entry.2 ≤ PROXIED_AUTH_TIMEOUT)
    let st' := st.setProxied t (proxied.insert serverState (auth, st.now))
    some ({ st' with parked := Function.update st.parked serverState (some (auth, st.now)) }.goto t
      (.persist serverState auth))
  | .persist serverState auth =>
    let entry := (auth, st.now + PROXIED_AUTH_TIMEOUT)
    some ({ st with backend := st.backend.insert serverState entry }.goto t (.done none))
  | .takeLocal query =>
    match (st.proxied t).get? query.state with
    | some (auth, created) =>
      let st' := st.setProxied t ((st.proxied t).remove query.state)
      let st' :=
        if st.now - created ≤ PROXIED_AUTH_TIMEOUT then st'.hold t query.state false else st'
      some (st'.goto t (.dropLocal query auth created))
    | none => some (st.goto t (.readThrough query))
  | .dropLocal query auth created =>
    if st.now - created ≤ PROXIED_AUTH_TIMEOUT then
      some (forward parses (st.delete query.state) t query auth)
    else some (((st.delete query.state).letGo t).goto t (.done none))
  | .readThrough query =>
    match st.stored query.state with
    | some auth => some ((st.hold t query.state true).goto t (.dropBackend query auth))
    | none => some (st.goto t (.done none))
  | .dropBackend query auth => some (forward parses (st.delete query.state) t query auth)
  | .done _ => none

def step (st : State) : Label → Option State
  | .tick d => some { st with now := st.now + d }
  | .authorize t inst serverState auth =>
    match (st.tasks t).pc with
    | .idle =>
      -- Server states are fresh.
      if serverState ∈ st.minted then none
      else
        some
          { st with
            tasks := Function.update st.tasks t { inst := inst, pc := .park serverState auth }
            minted := serverState :: st.minted }
    | _ => none
  | .callback t inst query =>
    match (st.tasks t).pc with
    | .idle =>
      some { st with tasks := Function.update st.tasks t { inst := inst, pc := .takeLocal query } }
    | _ => none
  | .run t => runSection parses st t

def system : System State Label := ⟨step parses⟩

end Sections

/-! ## Delivery -/

/-- **The purpose**: no server state yields two responses, and each response goes
to the client that was parked under its server state, within the timeout. -/
def Delivered (st : State) : Prop :=
  (st.forwarded.map (·.serverState)).Nodup ∧
    ∀ f ∈ st.forwarded, ∃ auth parkedAt, st.parked f.serverState = some (auth, parkedAt) ∧
      f.location.target = auth.redirectUri ∧
      f.location.pairs.lookup "state" = auth.clientState ∧
      f.instant ≤ parkedAt + PROXIED_AUTH_TIMEOUT

namespace State

/-- The server states callbacks have found and are still to delete. -/
def heldStates (st : State) : List String := st.held.map (·.serverState)

/-- `d` from now the timeout has not passed. -/
def inTime (st : State) (serverState : String) (d : Nat) : Bool :=
  (st.parked serverState).all fun entry =>
    decide (st.now + d ≤ entry.2 + PROXIED_AUTH_TIMEOUT)

end State

/-- Where a callback takes what nobody else has taken or is taking: it finds an
authorization in memory, while it is in time, only when the backend has it too,
and finds it in memory or in the backend only when no other callback that has
found it is still to delete it. It reads the backend within the timeout. -/
def Takes (st : State) (t : Nat) : Pc → Prop
  | .takeLocal query =>
    ((st.proxied t).get? query.state).any
        (fun entry => decide (st.now - entry.2 ≤ PROXIED_AUTH_TIMEOUT)) = true →
      (st.stored query.state).isSome = true ∧ query.state ∉ st.heldStates
  | .readThrough query =>
    (st.stored query.state).isSome = true →
      query.state ∉ st.heldStates ∧ st.inTime query.state 0 = true
  | _ => True

instance (st : State) (t : Nat) (pc : Pc) : Decidable (Takes st t pc) :=
  match pc with
  | .takeLocal _ => inferInstanceAs (Decidable (_ → _))
  | .readThrough _ => inferInstanceAs (Decidable (_ → _))
  | .idle => isTrue trivial
  | .park _ _ => isTrue trivial
  | .persist _ _ => isTrue trivial
  | .dropLocal _ _ _ => isTrue trivial
  | .dropBackend _ _ => isTrue trivial
  | .done _ => isTrue trivial

/-- Callbacks take one at a time, and the timeout does not pass between a read
of the backend and the delete that follows it. -/
def Orderly (st : State) : Label → Prop
  | .tick d => ∀ h ∈ st.held, h.fromBackend = true → st.inTime h.serverState d = true
  | .run t => Takes st t (st.tasks t).pc
  | _ => True

instance (st : State) (l : Label) : Decidable (Orderly st l) :=
  match l with
  | .tick _ => inferInstanceAs (Decidable (∀ h ∈ st.held, _))
  | .run t => inferInstanceAs (Decidable (Takes st t (st.tasks t).pc))
  | .authorize _ _ _ _ => isTrue trivial
  | .callback _ _ _ => isTrue trivial

end McpFramework.ProxiedProtocol
