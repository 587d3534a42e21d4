import McpFramework.Auth.ClientRedirects
import McpFramework.Auth.Config
import McpFramework.Core.JsonObject
import McpFramework.Core.Text

/-!
# Auth — Registration

Dynamic client registration (`auth/registration.rs`) and the `redirect_uri` check
it feeds (`auth/redirect.rs`): proxied to the authorization server, with a client
made up where that fails. The table of the registered URIs is that of
`ClientRedirects`.

`url::Url::parse` is third-party code, so it is a parameter, and nothing is
assumed of it.
-/

namespace McpFramework.Registration

open Lib

/-! ## Redirect URIs -/

inductive Host where
  | domain (name : String)
  | ipv4 (octets : List Nat)
  | ipv6 (address : Nat)
deriving DecidableEq

/-- What is read of a URL. An opaque origin, `none`, is like no other one. -/
structure Url where
  scheme : String
  host : Option Host
  fragment : Option String
  origin : Option (String × String × Nat)
deriving DecidableEq

/-- `eq_ignore_ascii_case`. -/
def eqIgnoreAsciiCase (s t : String) : Bool :=
  s.toList.map Char.toLower == t.toList.map Char.toLower

/-- Loopback is an http-only allowance. -/
def isLoopback (uri : Url) : Bool :=
  if uri.scheme ≠ "http" then false
  else
    match uri.host with
    | some (.domain domain) => eqIgnoreAsciiCase domain "localhost"
    | some (.ipv4 octets) => octets.head? == some 127
    | some (.ipv6 address) => address == 1
    | none => false

def sameOrigin (url url' : Url) : Bool :=
  match url.origin, url'.origin with
  | some origin, some origin' => origin == origin'
  | _, _ => false

section Redirect

variable (parseUrl : String → Option Url)

def redirectUriAllowed (redirectUri : String) (registered : Option (List String))
    (publicUrl : String) (allowlist : List String) : Bool :=
  match parseUrl redirectUri with
  | none => false
  | some uri =>
    if uri.fragment.isSome then false
    else
      registered.any (·.contains redirectUri) || isLoopback uri ||
        (parseUrl publicUrl).any (fun url => sameOrigin url uri) ||
        allowlist.contains redirectUri

/-- Accepted whoever asks: a loopback URI, one on the public origin, or one of the
allowlist. -/
def OpenToAll (redirectUri publicUrl : String) (allowlist : List String) : Prop :=
  (∃ uri, parseUrl redirectUri = some uri ∧
    (isLoopback uri = true ∨ ∃ url, parseUrl publicUrl = some url ∧ sameOrigin url uri = true)) ∨
    redirectUri ∈ allowlist

/-- A URL without a fragment, which alone can be accepted. -/
def Plain (redirectUri : String) : Prop :=
  ∃ uri, parseUrl redirectUri = some uri ∧ uri.fragment = none

/-- Accepted for those who registered it. -/
def NeedsRegistration (redirectUri publicUrl : String) (allowlist : List String) : Prop :=
  Plain parseUrl redirectUri ∧ ¬ OpenToAll parseUrl redirectUri publicUrl allowlist

theorem redirectUriAllowed_iff {redirectUri publicUrl : String}
    {registered : Option (List String)} {allowlist : List String} :
    redirectUriAllowed parseUrl redirectUri registered publicUrl allowlist = true ↔
      Plain parseUrl redirectUri ∧
        ((∃ uris, registered = some uris ∧ redirectUri ∈ uris) ∨
          OpenToAll parseUrl redirectUri publicUrl allowlist) := by
  unfold Plain OpenToAll redirectUriAllowed
  cases hparse : parseUrl redirectUri with
  | none => simp
  | some uri =>
    cases hfragment : uri.fragment with
    | some fragment => simp [hfragment]
    | none =>
      -- The checks of the source, in their order.
      simp only [Option.isSome_none, Bool.false_eq_true, if_false, Bool.or_eq_true,
        Option.any_eq_true, List.contains_iff_mem, Option.some.injEq, exists_eq_left',
        hfragment, true_and, or_assoc]

end Redirect

/-! ## Requests and answers -/

structure ClientRegistrationRequest where
  clientName : Option String
  redirectUris : List String
  grantTypes : Option (List String)
  responseTypes : Option (List String)
  tokenEndpointAuthMethod : Option String
  scope : Option String

structure ClientRegistrationResponse where
  clientId : String
  clientSecret : Option String
  clientName : Option String
  redirectUris : List String
  grantTypes : List String
  responseTypes : List String
  tokenEndpointAuthMethod : String

/-- What comes of the request to the authorization server: no answer, a status
that is no success, a body that is not JSON, or a body. -/
inductive Answer where
  | unreachable
  | failed
  | unreadable
  | created (body : Json)

structure OAuthError where
  status : Nat
  code : String
  description : String

def serverError (description : String) : OAuthError := ⟨500, "server_error", description⟩
def invalidRequest (description : String) : OAuthError := ⟨400, "invalid_request", description⟩

def MCP_CLIENT_ID_PREFIX : String := "mcp-"

/-- `McpOAuthState`, as far as registration and the redirect check read it. -/
structure Config where
  publicUrl : String
  keycloakClientId : String
  tokenMode : TokenMode
  allowedRedirectUris : List String

/-- The request for the authorization server. An empty `scope` is not the same
as none, and is not sent. -/
def keycloakRequest (request : ClientRegistrationRequest) : Json :=
  let strings (items : List String) : Json := .arr (items.map .str)
  let scope : JsonObject :=
    match request.scope.filter fun s => trim s ≠ "" with
    | some scope => [("scope", .str scope)]
    | none => []
  .obj ([("client_name", .str (request.clientName.getD "mcp-client")),
      ("grant_types",
        strings (request.grantTypes.getD ["authorization_code", "refresh_token"])),
      ("redirect_uris", strings request.redirectUris),
      ("response_types", strings (request.responseTypes.getD ["code"]))] ++ scope ++
    [("token_endpoint_auth_method", .str (request.tokenEndpointAuthMethod.getD "none"))])

/-- `generated` is the UUID that is made up where there is no name to go by. -/
def buildFallbackRegistration (request : ClientRegistrationRequest)
    (configuredClientId : Option String) (generated : Uuid) : ClientRegistrationResponse where
  clientId :=
    (configuredClientId.or request.clientName).getD (MCP_CLIENT_ID_PREFIX ++ generated.toText)
  clientSecret := none
  clientName := request.clientName
  redirectUris := request.redirectUris
  grantTypes := ["authorization_code", "refresh_token"]
  responseTypes := ["code"]
  tokenEndpointAuthMethod := "none"

/-- A member of an answer, where it is a string. -/
def stringMember (body : Json) (key : String) : Option String :=
  (body.get key).bind Json.asStr

/-- Only a pure resource server hands out a client id that is configured. -/
def fallbackClientId (config : Config) : Option String :=
  if config.tokenMode.isStateful then none else some config.keycloakClientId

/-- `register_handler`, up to what it remembers. -/
def registerHandler (config : Config) (keycloak : Json → Answer) (generated : Uuid)
    (request : ClientRegistrationRequest) : Except OAuthError ClientRegistrationResponse :=
  match keycloak (keycloakRequest request) with
  | .created body =>
    .ok
      { clientId := (stringMember body "client_id").getD "unknown"
        clientSecret := stringMember body "client_secret"
        clientName := request.clientName
        redirectUris := request.redirectUris
        grantTypes := request.grantTypes.getD ["authorization_code"]
        responseTypes := request.responseTypes.getD ["code"]
        tokenEndpointAuthMethod := request.tokenEndpointAuthMethod.getD "none" }
  | .unreadable => .error (serverError "Failed to parse registration response")
  | .failed => .ok (buildFallbackRegistration request (fallbackClientId config) generated)
  | .unreachable => .ok (buildFallbackRegistration request (fallbackClientId config) generated)

/-- The table of an instance is only kept in the proxying modes. -/
def rememberRegistration (config : Config) (redirects : ClientRedirects.State) (inst : Nat)
    (clientId : String) (redirectUris : List String) : Option ClientRedirects.State :=
  if config.tokenMode.isStateful then
    ClientRedirects.step redirects (.register inst clientId redirectUris)
  else some redirects

/-! ## Runs -/

/-- `supplied` is ghost: for each client id that was issued, the URIs that the
registration which got it first came with. -/
structure State where
  redirects : ClientRedirects.State
  supplied : String → Option (List String)

inductive Label where
  | register (inst : Nat) (request : ClientRegistrationRequest) (keycloak : Json → Answer)
      (generated : Uuid)
  | authorize (inst : Nat) (clientId redirectUri : String)
  | restart (inst : Nat)

def init : State := ⟨ClientRedirects.init, fun _ => none⟩

/-- The id goes to the registration that has it first. -/
def State.issue (st : State) (response : ClientRegistrationResponse) :
    String → Option (List String) :=
  Function.update st.supplied response.clientId
    (some ((st.supplied response.clientId).getD response.redirectUris))

def step (config : Config) (st : State) : Label → Option State
  | .register inst request keycloak generated =>
    match registerHandler config keycloak generated request with
    | .error _ => some st
    | .ok response =>
      (rememberRegistration config st.redirects inst response.clientId
        response.redirectUris).map fun redirects => ⟨redirects, st.issue response⟩
  -- A lookup may cache what is persisted.
  | .authorize inst clientId _ =>
    (ClientRedirects.step st.redirects (.lookup inst clientId)).map fun redirects =>
      { st with redirects := redirects }
  | .restart inst =>
    (ClientRedirects.step st.redirects (.restart inst)).map fun redirects =>
      { st with redirects := redirects }

def system (config : Config) : System State Label := ⟨step config⟩

/-- The check of `authorize_handler` on an instance. -/
def authorizeHandler (parseUrl : String → Option Url) (config : Config) (st : State) (inst : Nat)
    (clientId redirectUri : String) : Except OAuthError Unit :=
  let registered :=
    (ClientRedirects.clientRedirects (st.redirects.clients inst) st.redirects.persisted
      clientId).2
  if redirectUriAllowed parseUrl redirectUri registered config.publicUrl
      config.allowedRedirectUris then .ok ()
  else .error (invalidRequest "redirect_uri is not registered for this client")

/-! ## Isolation -/

section Isolation

variable (parseUrl : String → Option Url) (config : Config)

/-- What is accepted for a client anybody may use, or the registration that was
issued the client id came with it. -/
def Isolated (st : State) : Prop :=
  ∀ inst clientId redirectUri,
    authorizeHandler parseUrl config st inst clientId redirectUri = .ok () →
      OpenToAll parseUrl redirectUri config.publicUrl config.allowedRedirectUris ∨
        ∃ owned, st.supplied clientId = some owned ∧ redirectUri ∈ owned

/-- The client id of a registration, if it gets one. -/
def issuedId (request : ClientRegistrationRequest) (generated : Uuid) : Answer → Option String
  | .created body => some ((stringMember body "client_id").getD "unknown")
  | .unreadable => none
  | .failed =>
    some (((fallbackClientId config).or request.clientName).getD
      (MCP_CLIENT_ID_PREFIX ++ generated.toText))
  | .unreachable =>
    some (((fallbackClientId config).or request.clientName).getD
      (MCP_CLIENT_ID_PREFIX ++ generated.toText))

/-- A registration gets an id of its own, or comes with nothing that the first
one with that id has not come with. -/
def Apart (st : State) : Label → Prop
  | .register _ request keycloak generated =>
    config.tokenMode.isStateful = true →
      ∀ clientId, issuedId config request generated (keycloak (keycloakRequest request)) =
          some clientId →
        ∀ owned, st.supplied clientId = some owned → ∀ uri ∈ request.redirectUris,
          NeedsRegistration parseUrl uri config.publicUrl config.allowedRedirectUris →
            uri ∈ owned
  | _ => True

/-- What was ever registered for a client and needs to be, its first registration
came with. -/
def Owned (st : State) : Prop :=
  ∀ clientId, ∀ uri ∈ st.redirects.registered clientId,
    NeedsRegistration parseUrl uri config.publicUrl config.allowedRedirectUris →
      ∃ owned, st.supplied clientId = some owned ∧ uri ∈ owned

structure Inv (st : State) : Prop where
  registered : ClientRedirects.Registered st.redirects
  owned : Owned parseUrl config st

end Isolation

section Step

variable {parseUrl : String → Option Url} {config : Config} {st st' : State} {l : Label}
  {inst : Nat} {clientId redirectUri : String} {keycloak : Json → Answer} {generated : Uuid}
  {request : ClientRegistrationRequest} {response : ClientRegistrationResponse}

/-- A registration that is answered is issued its id, for the URIs it asked for. -/
theorem registerHandler_ok
    (h : registerHandler config keycloak generated request = .ok response) :
    issuedId config request generated (keycloak (keycloakRequest request)) =
        some response.clientId ∧
      response.redirectUris = request.redirectUris := by
  unfold registerHandler at h
  cases hanswer : keycloak (keycloakRequest request) with
  | unreadable =>
    rw [hanswer] at h
    cases h
  | created body | failed | unreachable =>
    rw [hanswer] at h
    cases h
    exact ⟨rfl, rfl⟩

theorem registerHandler_of_issued
    (h : issuedId config request generated (keycloak (keycloakRequest request)) = some clientId) :
    ∃ response, registerHandler config keycloak generated request = .ok response ∧
      response.clientId = clientId ∧ response.redirectUris = request.redirectUris := by
  unfold registerHandler
  cases hanswer : keycloak (keycloakRequest request) with
  | unreadable =>
    rw [hanswer] at h
    cases h
  | created body | failed | unreachable =>
    rw [hanswer] at h
    exact ⟨_, rfl, Option.some.inj h, rfl⟩

/-- An id that was issued stays with the registration that had it first. -/
theorem issue_of_supplied {owned : List String} (h : st.supplied clientId = some owned) :
    st.issue response clientId = some owned := by
  unfold State.issue
  by_cases hid : clientId = response.clientId
  · subst hid
    rw [Function.update_self, h, Option.getD_some]
  · rw [Function.update_of_ne hid, h]

theorem issue_self : st.issue response response.clientId =
    some ((st.supplied response.clientId).getD response.redirectUris) :=
  Function.update_self ..

/-- What an instance serves was registered. -/
theorem registered_of_served {redirects : ClientRedirects.State} {uris : List String}
    (h : ClientRedirects.Registered redirects)
    (hserved : (ClientRedirects.clientRedirects (redirects.clients inst) redirects.persisted
      clientId).2 = some uris) : ∀ uri ∈ uris, uri ∈ redirects.registered clientId := by
  intro uri huri
  cases hcached : (redirects.clients inst).get? clientId with
  | some cached =>
    have hsame : cached = uris := by
      unfold ClientRedirects.clientRedirects at hserved
      rw [hcached] at hserved
      exact Option.some.inj hserved
    apply h.2 inst clientId
    rw [hcached, hsame]
    exact huri
  | none =>
    rw [ClientRedirects.clientRedirects_of_uncached _ hcached] at hserved
    apply h.1 clientId
    rw [ClientRedirects.State.list, hserved]
    exact huri

theorem authorizeHandler_ok_iff :
    authorizeHandler parseUrl config st inst clientId redirectUri = .ok () ↔
      redirectUriAllowed parseUrl redirectUri
        (ClientRedirects.clientRedirects (st.redirects.clients inst) st.redirects.persisted
          clientId).2 config.publicUrl config.allowedRedirectUris = true := by
  unfold authorizeHandler
  dsimp only
  split
  · next h => simp [h]
  · next h => simp [h]

/-- Owned lists isolate, wherever they are looked up. -/
theorem Inv.isolated (h : Inv parseUrl config st) : Isolated parseUrl config st := by
  intro inst clientId redirectUri haccepted
  obtain ⟨hplain, haccepted⟩ :=
    (redirectUriAllowed_iff parseUrl).mp (authorizeHandler_ok_iff.mp haccepted)
  by_cases hopen : OpenToAll parseUrl redirectUri config.publicUrl config.allowedRedirectUris
  · exact Or.inl hopen
  · obtain ⟨uris, hserved, huri⟩ := haccepted.resolve_right hopen
    right
    exact h.owned clientId redirectUri
      (registered_of_served h.registered hserved redirectUri huri) ⟨hplain, hopen⟩

theorem Inv.init : Inv parseUrl config init where
  registered := ClientRedirects.registered_init
  owned _ _ huri := absurd huri List.not_mem_nil

/-- The steps that leave alone what is registered. -/
theorem Inv.keep {redirects : ClientRedirects.State} (h : Inv parseUrl config st)
    {l : ClientRedirects.Label} (hs : ClientRedirects.step st.redirects l = some redirects)
    (hsame : redirects.registered = st.redirects.registered) :
    Inv parseUrl config { st with redirects := redirects } where
  registered := h.registered.step hs
  owned clientId uri huri := by
    have hold : uri ∈ st.redirects.registered clientId := hsame ▸ huri
    exact h.owned clientId uri hold

/-- What a registration can do. -/
theorem step_register
    (hs : step config st (.register inst request keycloak generated) = some st') :
    (∃ e, registerHandler config keycloak generated request = .error e ∧ st' = st) ∨
      ∃ response redirects,
        registerHandler config keycloak generated request = .ok response ∧
          rememberRegistration config st.redirects inst response.clientId
            response.redirectUris = some redirects ∧
          st' = ⟨redirects, st.issue response⟩ := by
  dsimp only [step] at hs
  split at hs
  · next e hanswer =>
    cases hs
    exact Or.inl ⟨e, hanswer, rfl⟩
  · next response hanswer =>
    obtain ⟨redirects, hremember, rfl⟩ := Option.map_eq_some_iff.mp hs
    exact Or.inr ⟨response, redirects, hanswer, hremember, rfl⟩

theorem Inv.register (h : Inv parseUrl config st)
    (hapart : Apart parseUrl config st (.register inst request keycloak generated))
    (hs : step config st (.register inst request keycloak generated) = some st') :
    Inv parseUrl config st' := by
  rcases step_register hs with ⟨-, -, rfl⟩ | ⟨response, redirects, hanswer, hremember, rfl⟩
  · exact h
  · obtain ⟨hissued, huris⟩ := registerHandler_ok hanswer
    unfold rememberRegistration at hremember
    split at hremember
    · next hstateful =>
      refine ⟨h.registered.step hremember, fun clientId uri huri hneeds => ?_⟩
      have hreg : uri ∈ redirects.registered clientId := huri
      rw [ClientRedirects.registered_register hremember] at hreg
      show ∃ owned, st.issue response clientId = some owned ∧ uri ∈ owned
      split at hreg
      · next hid =>
        subst hid
        rw [issue_self]
        rcases List.mem_append.mp hreg with hold | hnew
        · -- What was there before has its owner already.
          obtain ⟨owned, hsupplied, hmem⟩ := h.owned response.clientId uri hold hneeds
          exact ⟨owned, by rw [hsupplied, Option.getD_some], hmem⟩
        · -- A new one comes with the first registration of the id, or is on the
          -- list of that one: a registration apart brings no other.
          refine ⟨_, rfl, ?_⟩
          cases hsupplied : st.supplied response.clientId with
          | none => exact hnew
          | some owned =>
            exact hapart hstateful response.clientId hissued owned hsupplied uri
              (huris ▸ hnew) hneeds
      · obtain ⟨owned, hsupplied, hmem⟩ := h.owned clientId uri hreg hneeds
        exact ⟨owned, issue_of_supplied hsupplied, hmem⟩
    · -- In stateless mode nothing is remembered.
      cases hremember
      refine ⟨h.registered, fun clientId uri huri hneeds => ?_⟩
      obtain ⟨owned, hsupplied, hmem⟩ := h.owned clientId uri huri hneeds
      exact ⟨owned, issue_of_supplied hsupplied, hmem⟩

theorem Inv.step (h : Inv parseUrl config st) (hapart : Apart parseUrl config st l)
    (hs : step config st l = some st') : Inv parseUrl config st' := by
  cases l with
  | register inst request keycloak generated => exact h.register hapart hs
  | authorize inst clientId redirectUri =>
    dsimp only [Registration.step] at hs
    obtain ⟨redirects, hlookup, rfl⟩ := Option.map_eq_some_iff.mp hs
    apply h.keep hlookup
    cases hlookup
    rfl
  | restart inst =>
    dsimp only [Registration.step] at hs
    obtain ⟨redirects, hrestart, rfl⟩ := Option.map_eq_some_iff.mp hs
    apply h.keep hrestart
    cases hrestart
    rfl

/-- The instance that registers serves what it has merged. -/
theorem served_of_register {redirects redirects' : ClientRedirects.State}
    {uris : List String}
    (hs : ClientRedirects.step redirects (.register inst clientId uris) = some redirects') :
    ∃ merged, (ClientRedirects.clientRedirects (redirects'.clients inst) redirects'.persisted
        clientId).2 = some merged ∧ ∀ uri ∈ uris, uri ∈ merged := by
  have hmerged : ∀ uri ∈ uris, uri ∈
      ClientRedirects.mergeUris (((redirects.clients inst).get? clientId).getD []) uris :=
    fun uri huri => (ClientRedirects.mem_mergeUris _ _).mpr (Or.inr huri)
  refine ⟨_, ?_, hmerged⟩
  cases hs
  simp only [ClientRedirects.registerClientRedirects, Function.update_self]
  by_cases hroom : (redirects.clients inst).containsKey clientId ||
      decide ((redirects.clients inst).len < ClientRedirects.MAX_CACHED_CLIENTS)
  · rw [if_pos hroom]
    unfold ClientRedirects.clientRedirects
    rw [HashMap.get?_insert_self]
  · -- A client that is not in a full table is looked up in the backend.
    have habsent : (redirects.clients inst).get? clientId = none := by
      rw [Bool.not_eq_true, Bool.or_eq_false_iff] at hroom
      simpa [HashMap.containsKey] using hroom.1
    rw [if_neg hroom, ClientRedirects.clientRedirects_of_uncached _ habsent,
      HashMap.get?_insert_self]

/-- A registration that is not apart gets a URI accepted for the other's client. -/
theorem not_isolated_of_not_apart (hapart : ¬ Apart parseUrl config st l)
    (hs : step config st l = some st') : ¬ Isolated parseUrl config st' := by
  cases l with
  | authorize inst clientId redirectUri => exact absurd trivial hapart
  | restart inst => exact absurd trivial hapart
  | register inst request keycloak generated =>
    simp only [Apart, not_forall] at hapart
    obtain ⟨hstateful, clientId, hissued, owned, hsupplied, uri, huri, hneeds, hforeign⟩ := hapart
    obtain ⟨response, hanswer, rfl, huris⟩ := registerHandler_of_issued hissued
    rcases step_register hs with ⟨e, herror, -⟩ | ⟨response', redirects, hanswer', hremember, rfl⟩
    · rw [hanswer] at herror
      cases herror
    · rw [hanswer] at hanswer'
      cases hanswer'
      rw [rememberRegistration, if_pos hstateful, huris] at hremember
      obtain ⟨merged, hserved, hmem⟩ := served_of_register hremember
      intro hisolated
      have haccepted : authorizeHandler parseUrl config ⟨redirects, st.issue response⟩ inst
          response.clientId uri = .ok () :=
        authorizeHandler_ok_iff.mpr ((redirectUriAllowed_iff parseUrl).mpr
          ⟨hneeds.1, Or.inl ⟨merged, hserved, hmem uri huri⟩⟩)
      rcases hisolated inst response.clientId uri haccepted with hopen | ⟨owned', hs', hmem'⟩
      · exact hneeds.2 hopen
      · have howner : st.issue response response.clientId = some owned :=
          issue_of_supplied hsupplied
        cases howner.symm.trans hs'
        exact hforeign hmem'

/-- An id that nobody was issued is nobody else's. -/
theorem apart_of_new
    (h : ∀ clientId, issuedId config request generated (keycloak (keycloakRequest request)) =
      some clientId → st.supplied clientId = none) :
    Apart parseUrl config st (.register inst request keycloak generated) := by
  intro _ clientId hissued owned hsupplied
  rw [h clientId hissued] at hsupplied
  cases hsupplied

end Step

/-- **Registrations are isolated** in any run in which every registration is apart,
and the first one that is not gets a URI accepted for another one's client. -/
theorem isolated_while_apart (parseUrl : String → Option Url) (config : Config) (st : State) :
    ((system config).Reach (Apart parseUrl config) init st → Isolated parseUrl config st) ∧
      ∀ l st', ¬ Apart parseUrl config st l → step config st l = some st' →
        ¬ Isolated parseUrl config st' := by
  constructor
  · intro hr
    exact (hr.invariant Inv.init fun _ _ _ h hapart hs => h.step hapart hs).isolated
  · intro l st' hapart hs
    exact not_isolated_of_not_apart hapart hs

section Runs

/-- Three URLs, as they are parsed. -/
def parseExamples (s : String) : Option Url :=
  let onHost (host : String) : Url :=
    ⟨"https", some (.domain host), none, some ("https", host, 443)⟩
  if s = "https://mcp.example" then some (onHost "mcp.example")
  else if s = "https://client.example/cb" then some (onHost "client.example")
  else if s = "https://attacker.example/cb" then some (onHost "attacker.example")
  else none

def exampleConfig : Config := ⟨"https://mcp.example", "mcp-server", .passthrough, []⟩

def registration (name uri : String) : ClientRegistrationRequest :=
  ⟨some name, [uri], none, none, none, none⟩

/-- The authorization server issues an id. -/
def issues (clientId : String) : Json → Answer :=
  fun _ => .created (.obj [("client_id", .str clientId)])

/-- The authorization server registers a client. -/
def hosted : Label :=
  .register 0 (registration "hosted" "https://client.example/cb") (issues "kc-dcr-client") 0

/-- It refuses one that goes by a name of its own. -/
def madeUp : Label :=
  .register 0 (registration "other" "https://attacker.example/cb") (fun _ => .failed) 0

/-- It cannot be reached for one that goes by the id of the first. -/
def impostor : Label :=
  .register 0 (registration "kc-dcr-client" "https://attacker.example/cb")
    (fun _ => .unreachable) 0

/-- The state after the first client and another one. -/
def afterHosted (l : Label) : Option State := (step exampleConfig init hosted).bind
  (step exampleConfig · l)

theorem isolated_while_apart_madeUp :
    ∃ st, afterHosted madeUp = some st ∧ Isolated parseExamples exampleConfig st := by
  have hfirst : Apart parseExamples exampleConfig init hosted := apart_of_new fun _ _ => rfl
  have hsecond : Apart parseExamples exampleConfig
      ((step exampleConfig init hosted).get rfl) madeUp := by
    apply apart_of_new
    intro clientId hissued
    have hname : some "other" = some clientId := hissued
    cases hname
    rfl
  have hr : (system exampleConfig).Reach (Apart parseExamples exampleConfig) init
      ((afterHosted madeUp).get rfl) := .step (.step .refl hfirst rfl) hsecond rfl
  exact ⟨_, rfl, (isolated_while_apart parseExamples exampleConfig _).1 hr⟩

/-- The authorization server never issues an id that is in use. -/
def FreshUpstream (st : State) : Label → Prop
  | .register _ request keycloak _ =>
    ∀ body, keycloak (keycloakRequest request) = .created body →
      ∃ clientId, stringMember body "client_id" = some clientId ∧ st.supplied clientId = none
  | _ => True

theorem impostor_is_accepted :
    ¬ ∀ parseUrl config st, (system config).Reach FreshUpstream init st →
      Isolated parseUrl config st := by
  intro h
  have hfirst : FreshUpstream init hosted := by
    intro body hbody
    have hcreated : Answer.created (.obj [("client_id", .str "kc-dcr-client")]) =
        .created body := hbody
    cases hcreated
    exact ⟨"kc-dcr-client", rfl, rfl⟩
  have hsecond : FreshUpstream ((step exampleConfig init hosted).get rfl) impostor := by
    intro body hbody
    have hnone : Answer.unreachable = .created body := hbody
    cases hnone
  have hr : (system exampleConfig).Reach FreshUpstream init ((afterHosted impostor).get rfl) :=
    .step (.step .refl hfirst rfl) hsecond rfl
  have haccepted : authorizeHandler parseExamples exampleConfig ((afterHosted impostor).get rfl) 0
      "kc-dcr-client" "https://attacker.example/cb" = .ok () := rfl
  rcases h parseExamples exampleConfig _ hr 0 "kc-dcr-client" _ haccepted with
    (⟨uri, huri, hopen⟩ | hlisted) | ⟨owned, howned, hmem⟩
  · have hattacker : parseExamples "https://attacker.example/cb" =
        some ⟨"https", some (.domain "attacker.example"), none,
          some ("https", "attacker.example", 443)⟩ := rfl
    cases hattacker.symm.trans huri
    rcases hopen with hloopback | ⟨url, hurl, horigin⟩
    · exact absurd hloopback (by decide)
    · have hpublic : parseExamples "https://mcp.example" =
          some ⟨"https", some (.domain "mcp.example"), none,
            some ("https", "mcp.example", 443)⟩ := rfl
      cases hpublic.symm.trans hurl
      exact absurd horigin (by decide)
  · exact absurd hlisted List.not_mem_nil
  · have hclient : some ["https://client.example/cb"] = some owned := howned
    cases hclient
    exact absurd hmem (by decide)

end Runs

end McpFramework.Registration
