import McpFramework.Auth.ProxiedAuthorization
import McpFramework.Auth.TokenRequest
import McpFramework.Lib.PercentEncoding

/-!
# Auth — ProxyWire

What the proxied flow puts on the wire (`auth/proxy.rs`, `auth/routes.rs`): the
URL `/oauth/authorize` redirects to, the URL `/oauth/callback` sends a client
back to, and the body of a token request.

All three are texts in which strings of the client, the authorization server and
the configuration are written one after the other. Each is read back here the way
its receiver reads it, as pairs of a form.
-/

namespace McpFramework.ProxyWire

open Lib
open TokenRequest (OAuthProxy Parsers Params)
open ProxiedProtocol (ProxiedAuthorization CallbackQuery Location optionalPair)
open Registration (OAuthError invalidRequest redirectUriAllowed Url)

/-- `form_urlencoded::parse`. -/
def formParse (lossy : ByteArray → String) (text : List Char) : List (String × String) :=
  readPairs (decodeText lossy formDecode) text

/-- `urlencoding::encode`. -/
def urlencode (s : String) : String := String.ofList (encodeText uriByte s)

/-! ## The authorization request -/

structure AuthorizeRequest where
  responseType : String
  clientId : String
  redirectUri : String
  scope : Option String
  state : Option String
  codeChallenge : Option String
  codeChallengeMethod : Option String
  resource : Option String

structure McpOAuthState extends OAuthProxy where
  keycloakRealmUrl : String
  allowedRedirectUris : List String

/-- `push_str` of a parameter that may be missing. -/
def pushParam (url name : String) : Option String → String
  | some value => url ++ ("&" ++ name ++ "=" ++ urlencode value)
  | none => url

/-- The server's client id and callback stand in for the client's. -/
def keycloakAuthUrl (state : McpOAuthState) (serverState : String) (request : AuthorizeRequest) :
    String :=
  let url := state.keycloakRealmUrl ++ "/protocol/openid-connect/auth?response_type=" ++
    urlencode request.responseType ++ "&client_id=" ++ urlencode state.keycloakClientId ++
    "&redirect_uri=" ++ urlencode state.callbackUrl ++ "&state=" ++ urlencode serverState
  let url := pushParam url "scope" request.scope
  let url := pushParam url "code_challenge" request.codeChallenge
  let url := pushParam url "code_challenge_method" request.codeChallengeMethod
  pushParam url "resource" request.resource

/-- What a redirect to the authorization server leaves behind. -/
structure Redirected where
  url : String
  parked : ProxiedAuthorization

/-- `registered` are the redirect URIs of the client, `serverState` is new. -/
def authorizeHandler (parseUrl : String → Option Url) (state : McpOAuthState)
    (registered : Option (List String)) (serverState : String) (request : AuthorizeRequest) :
    Except OAuthError Redirected :=
  if redirectUriAllowed parseUrl request.redirectUri registered state.publicUrl
      state.allowedRedirectUris then
    .ok
      { url := keycloakAuthUrl state serverState request
        parked :=
          { redirectUri := request.redirectUri
            clientState := request.state
            issuer := state.publicUrl } }
  else .error (invalidRequest "redirect_uri is not registered for this client")

/-- What the authorization server is to read. -/
def authorizePairs (state : McpOAuthState) (serverState : String) (request : AuthorizeRequest) :
    List (String × String) :=
  [("response_type", request.responseType), ("client_id", state.keycloakClientId),
    ("redirect_uri", state.callbackUrl), ("state", serverState)] ++
  optionalPair "scope" request.scope ++ optionalPair "code_challenge" request.codeChallenge ++
  optionalPair "code_challenge_method" request.codeChallengeMethod ++
  optionalPair "resource" request.resource

section Authorize

variable {lossy : ByteArray → String} {url name : String} {text : List Char}
  {pairs pairs' : List (String × String)}

/-- The URL ends in the pairs. -/
def EndsIn (url start : String) (pairs : List (String × String)) : Prop :=
  url.toList = start.toList ++ appendPairs (encodeText uriByte) [] pairs

theorem appendPairs_append (enc : String → List Char) :
    appendPairs enc text (pairs ++ pairs') = appendPairs enc (appendPairs enc text pairs) pairs' :=
  List.foldl_append

theorem appendPairs_ne_nil (enc : String → List Char) (e : String × String) :
    appendPairs enc text (e :: pairs) ≠ [] := by
  induction pairs generalizing text e with
  | nil =>
    intro h
    exact absurd (List.append_eq_nil_iff.mp (List.append_eq_nil_iff.mp h).2).2 (by simp)
  | cons e' pairs ih => exact ih e'

/-- One more pair after others. -/
theorem EndsIn.push {start : String} {e : String × String} (h : EndsIn url start (e :: pairs))
    (hname : encodeText uriByte name = name.toList) (value : String) :
    EndsIn (url ++ ("&" ++ name ++ "=" ++ urlencode value)) start
      (e :: pairs ++ [(name, value)]) := by
  have hne : appendPairs (encodeText uriByte) [] (e :: pairs) ≠ [] := appendPairs_ne_nil _ e
  have hlast : appendPairs (encodeText uriByte) [] (e :: pairs ++ [(name, value)]) =
      appendPairs (encodeText uriByte) [] (e :: pairs) ++
        '&' :: (name.toList ++ '=' :: encodeText uriByte value) := by
    rw [appendPairs_append]
    show (if appendPairs (encodeText uriByte) [] (e :: pairs) = [] then [] else _) ++ _ = _
    rw [if_neg hne, writePair, hname, List.append_assoc, List.singleton_append]
  rw [EndsIn, hlast, String.toList_append, h]
  simp [urlencode, String.toList_append]

theorem EndsIn.pushParam {start : String} {e : String × String} (h : EndsIn url start (e :: pairs))
    (hname : encodeText uriByte name = name.toList) (value : Option String) :
    EndsIn (pushParam url name value) start (e :: (pairs ++ optionalPair name value)) := by
  cases value with
  | none =>
    rw [show optionalPair name none = [] from rfl, List.append_nil]
    exact h
  | some value => exact h.push hname value

theorem keycloakAuthUrl_endsIn (state : McpOAuthState) (serverState : String)
    (request : AuthorizeRequest) :
    EndsIn (keycloakAuthUrl state serverState request)
      (state.keycloakRealmUrl ++ "/protocol/openid-connect/auth?")
      (authorizePairs state serverState request) := by
  have hfirst : EndsIn (state.keycloakRealmUrl ++ "/protocol/openid-connect/auth?response_type=" ++
      urlencode request.responseType) (state.keycloakRealmUrl ++ "/protocol/openid-connect/auth?")
      [("response_type", request.responseType)] := by
    have hname : encodeText uriByte "response_type" = "response_type".toList := by decide
    show _ = _ ++ ([] ++ (encodeText uriByte "response_type" ++ '=' :: _))
    rw [hname]
    simp [urlencode, String.toList_append]
  have hfour := ((hfirst.push (by decide : encodeText uriByte "client_id" = "client_id".toList)
    state.keycloakClientId).push
      (by decide : encodeText uriByte "redirect_uri" = "redirect_uri".toList)
      state.callbackUrl).push (by decide : encodeText uriByte "state" = "state".toList) serverState
  have hall := (((hfour.pushParam
    (by decide : encodeText uriByte "scope" = "scope".toList) request.scope).pushParam
      (by decide : encodeText uriByte "code_challenge" = "code_challenge".toList)
      request.codeChallenge).pushParam
      (by decide : encodeText uriByte "code_challenge_method" = "code_challenge_method".toList)
      request.codeChallengeMethod).pushParam
      (by decide : encodeText uriByte "resource" = "resource".toList) request.resource
  simpa [keycloakAuthUrl, authorizePairs, String.append_assoc] using hall

theorem formParse_uri (pairs : List (String × String)) :
    formParse lossy (appendPairs (encodeText uriByte) [] pairs) = pairs :=
  readPairs_appendPairs [] fun e _ => separable_encodeText reads_uri_form plain_uri lossy e

/-- **What the authorization server reads** in a redirect to it: the pairs that
are meant for it, whatever strings a client sends, and nothing is cut off as a
fragment. The client's redirect URI and state stay behind, with an allowed URI. -/
theorem authorizeHandler_reads {parseUrl : String → Option Url} {state : McpOAuthState}
    {registered : Option (List String)} {serverState : String} {request : AuthorizeRequest}
    {redirected : Redirected}
    (h : authorizeHandler parseUrl state registered serverState request = .ok redirected)
    (lossy : ByteArray → String) :
    (∃ query : List Char,
      redirected.url.toList =
        (state.keycloakRealmUrl ++ "/protocol/openid-connect/auth?").toList ++ query ∧
      '#' ∉ query ∧ formParse lossy query = authorizePairs state serverState request) ∧
    redirected.parked = ⟨request.redirectUri, request.state, state.publicUrl⟩ ∧
    redirectUriAllowed parseUrl request.redirectUri registered state.publicUrl
      state.allowedRedirectUris = true := by
  unfold authorizeHandler at h
  split at h
  · next hallowed =>
    cases h
    refine ⟨⟨_, keycloakAuthUrl_endsIn state serverState request, fun hmem => ?_,
      formParse_uri _⟩, rfl, hallowed⟩
    rcases mem_appendPairs hmem with hnil | hamp | heq | ⟨e, -, hc⟩
    · cases hnil
    · exact absurd hamp (by decide)
    · exact absurd heq (by decide)
    · rcases List.mem_append.mp hc with hc | hc
      · exact absurd (plain_uri.text hc) (by decide)
      · exact absurd (plain_uri.text hc) (by decide)
  · cases h

def exampleState : McpOAuthState :=
  { publicUrl := "https://mcp.example", keycloakClientId := "mcp", keycloakClientSecret := none
    tokenMode := .passthrough, keycloakRealmUrl := "https://kc/realms/r"
    allowedRedirectUris := ["https://app/cb"] }

/-- A client that tries to add a client id of its own. -/
def injecting : AuthorizeRequest :=
  { responseType := "code&client_id=evil", clientId := "c", redirectUri := "https://app/cb"
    scope := some "openid&state=x#", state := some "s", codeChallenge := none
    codeChallengeMethod := none, resource := none }

/-- `https://app/cb`. -/
def parseExample (_ : String) : Option Url := some ⟨"https", none, none, none⟩

theorem injecting_reads :
    ∃ query : List Char,
      (keycloakAuthUrl exampleState "srv" injecting).toList =
        "https://kc/realms/r/protocol/openid-connect/auth?".toList ++ query ∧
      formParse (fun _ => "") query =
        [("response_type", "code&client_id=evil"), ("client_id", "mcp"),
          ("redirect_uri", "https://mcp.example/oauth/callback"), ("state", "srv"),
          ("scope", "openid&state=x#")] := by
  have hok : authorizeHandler parseExample exampleState none "srv" injecting =
      .ok ⟨keycloakAuthUrl exampleState "srv" injecting,
        ⟨"https://app/cb", some "s", "https://mcp.example"⟩⟩ := by
    have hallowed : redirectUriAllowed parseExample injecting.redirectUri none
        exampleState.publicUrl exampleState.allowedRedirectUris = true := by decide
    rw [authorizeHandler, if_pos hallowed]
    rfl
  obtain ⟨⟨query, hurl, -, hread⟩, -, -⟩ := authorizeHandler_reads hok fun _ => ""
  exact ⟨query, hurl, hread.trans rfl⟩

end Authorize

/-! ## The response -/

/-- A parsed URL: what stands before its query, the query, and the fragment. -/
structure Target where
  base : List Char
  query : Option (List Char)
  fragment : Option (List Char)
  base_plain : '?' ∉ base ∧ '#' ∉ base
  query_plain : ∀ q ∈ query, '#' ∉ q

def Target.text (target : Target) : List Char :=
  target.base ++ (target.query.elim [] fun q => '?' :: q) ++
    target.fragment.elim [] fun f => '#' :: f

/-- The query of a URL as whoever is sent there finds it. -/
def queryOf (text : List Char) : List Char :=
  ((text.takeWhile (· ≠ '#')).dropWhile (· ≠ '?')).drop 1

section Response

variable {lossy : ByteArray → String} {c : Char} {text text' : List Char}
  {pairs : List (String × String)}

theorem takeWhile_ne (h : c ∉ text) (h' : text' = [] ∨ ∃ rest, text' = c :: rest) :
    (text ++ text').takeWhile (· ≠ c) = text := by
  have hall : ∀ d ∈ text, decide (d ≠ c) = true := by
    intro d hd
    exact decide_eq_true fun heq => h (heq ▸ hd)
  rw [List.takeWhile_append_of_pos hall]
  rcases h' with rfl | ⟨rest, rfl⟩ <;> simp

theorem dropWhile_ne (h : c ∉ text) : (text ++ text').dropWhile (· ≠ c) =
    text'.dropWhile (· ≠ c) := by
  refine List.dropWhile_append_of_pos fun d hd => ?_
  exact decide_eq_true fun heq => h (heq ▸ hd)

theorem queryOf_text (target : Target) : queryOf target.text = target.query.getD [] := by
  have hfragment : (target.fragment.elim [] fun f => '#' :: f) = [] ∨
      ∃ rest, (target.fragment.elim [] fun f => '#' :: f) = '#' :: rest := by
    cases target.fragment with
    | none => exact Or.inl rfl
    | some f => exact Or.inr ⟨f, rfl⟩
  have hplain : '#' ∉ target.base ++ (target.query.elim [] fun q => '?' :: q) := by
    intro hmem
    rcases List.mem_append.mp hmem with hmem | hmem
    · exact target.base_plain.2 hmem
    · cases hq : target.query with
      | none =>
        rw [hq] at hmem
        cases hmem
      | some q =>
        rw [hq] at hmem
        rcases List.mem_cons.mp hmem with heq | hmem
        · exact absurd heq (by decide)
        · exact target.query_plain q hq hmem
  rw [queryOf, Target.text, takeWhile_ne hplain hfragment, dropWhile_ne target.base_plain.1]
  cases target.query with
  | none => rfl
  | some q => simp

/-- What is appended brings no `#`. -/
theorem append_plain {query : Option (List Char)} (h : ∀ q ∈ query, '#' ∉ q)
    (pairs : List (String × String)) :
    ∀ q ∈ some (appendPairs (encodeText formByte) (query.getD []) pairs), '#' ∉ q := by
  intro q hq hmem
  cases hq
  rcases mem_appendPairs hmem with htarget | hamp | heq | ⟨e, -, hc⟩
  · cases hquery : query with
    | none =>
      rw [hquery] at htarget
      cases htarget
    | some own =>
      rw [hquery] at htarget
      exact h own hquery htarget
  · exact absurd hamp (by decide)
  · exact absurd heq (by decide)
  · rcases List.mem_append.mp hc with hc | hc
    · exact absurd (plain_form.text hc) (by decide)
    · exact absurd (plain_form.text hc) (by decide)

/-- `query_pairs_mut` and `append_pair`. -/
def Target.append (target : Target) (pairs : List (String × String)) : Target :=
  { target with
    query := some (appendPairs (encodeText formByte) (target.query.getD []) pairs)
    query_plain := append_plain target.query_plain pairs }

/-- The parameters a URL had are read first, and then what is appended. -/
theorem formParse_append (target : Target) (pairs : List (String × String)) :
    formParse lossy (queryOf (target.append pairs).text) =
      formParse lossy (queryOf target.text) ++ pairs := by
  rw [queryOf_text, queryOf_text]
  exact readPairs_appendPairs _ fun e _ => separable_encodeText reads_form plain_form lossy e

/-- What the authorization server answered. -/
def answerPairs (query : CallbackQuery) : List (String × String) :=
  match query.code, query.error with
  | some code, none => [("code", code)]
  | _, some error =>
    [("error", error)] ++ optionalPair "error_description" query.errorDescription ++
      optionalPair "error_uri" query.errorUri
  | none, none => []

theorem forwardProxiedCallback_pairs {parses : String → Bool} {proxied : ProxiedAuthorization}
    {query : CallbackQuery} {location : Location}
    (h : ProxiedProtocol.forwardProxiedCallback parses proxied query = .ok location) :
    parses proxied.redirectUri = true ∧ location.target = proxied.redirectUri ∧
      location.pairs = answerPairs query ++ optionalPair "state" proxied.clientState ++
        [("iss", proxied.issuer)] := by
  unfold ProxiedProtocol.forwardProxiedCallback at h
  split at h
  · next hparses =>
    refine ⟨hparses, ?_⟩
    split at h
    · next hcode herror =>
      cases h
      simp [answerPairs, hcode, herror]
    · next herror =>
      cases h
      simp [answerPairs, herror]
    · cases h
  · cases h

end Response

/-! ## The token request -/

section TokenBody

open TokenRequest MultiMap

variable {lossy : ByteArray → String}

/-- The body that `forward_to_keycloak` sends. -/
def forwardBody (params : Params) : List Char := appendPairs (encodeText formByte) [] params

/-- Forms are read by `form_urlencoded::parse`. -/
def formParsers (lossy : ByteArray → String) (json : String → Option Json)
    (toJson : Json → String) : Parsers :=
  { form := fun body => formParse lossy body.toList, json := json, toJson := toJson }

theorem formParse_forwardBody (params : Params) : formParse lossy (forwardBody params) = params :=
  readPairs_appendPairs [] fun e _ => separable_encodeText reads_form plain_form lossy e

/-- **What the authorization server reads** in the body of a token request: no
client id but the server's, of a code grant no redirect URI but the callback, and
of the rest what the client's body is read as, in its order. -/
theorem tokenHandler_reads {json : String → Option Json} {toJson : Json → String}
    {state : OAuthProxy} {contentType body : String} {sent : Params}
    (h : tokenHandler (formParsers lossy json toJson) state contentType body = .ok (some sent)) :
    ∃ params, parseTokenParams (formParsers lossy json toJson) contentType body = .ok params ∧
      (∀ e ∈ formParse lossy (forwardBody sent), e.1 = "client_id" →
        e.2 = state.keycloakClientId) ∧
      (isCodeGrant params = true →
        getAll (formParse lossy (forwardBody sent)) "redirect_uri" = [state.callbackUrl]) ∧
      (formParse lossy (forwardBody sent)).filter (fun e => !rewritten state params e.1) =
        params.filter fun e => !rewritten state params e.1 := by
  obtain ⟨params, hparams, rfl⟩ := tokenHandler_sends h
  rw [formParse_forwardBody]
  exact ⟨params, hparams, fun _ he hid => clientId_inject he hid, redirectUri_inject,
    others_inject state params⟩

def codeGrant : Params :=
  [("grant_type", "authorization_code"), ("client_id", "other"), ("code", "a&client_id=b"),
    ("redirect_uri", "https://app/cb")]

def readCodeGrant : Params :=
  formParse (fun _ => "") (forwardBody (injectKeycloakCredentials exampleState.toOAuthProxy
    codeGrant))

theorem codeGrant_reads :
    (∀ e ∈ readCodeGrant, e.1 = "client_id" → e.2 = "mcp") ∧
      getAll readCodeGrant "redirect_uri" = ["https://mcp.example/oauth/callback"] := by
  have hform : (formParsers (fun _ => "") (fun _ => none) fun _ => "").form
      (String.ofList (forwardBody codeGrant)) = codeGrant := by
    show formParse _ (String.ofList _).toList = _
    rw [String.toList_ofList, formParse_forwardBody]
  have hparams : parseTokenParams (formParsers (fun _ => "") (fun _ => none) fun _ => "") ""
      (String.ofList (forwardBody codeGrant)) = .ok codeGrant := by
    unfold parseTokenParams
    rw [hform]
    rfl
  have hsent : tokenHandler (formParsers (fun _ => "") (fun _ => none) fun _ => "")
      exampleState.toOAuthProxy "" (String.ofList (forwardBody codeGrant)) =
        .ok (some (injectKeycloakCredentials exampleState.toOAuthProxy codeGrant)) := by
    unfold tokenHandler readTokenRequest
    rw [hparams]
    rfl
  obtain ⟨params, hread, hid, huri, -⟩ := tokenHandler_reads hsent
  rw [hparams] at hread
  cases hread
  exact ⟨hid, huri (by decide)⟩

end TokenBody

end McpFramework.ProxyWire
