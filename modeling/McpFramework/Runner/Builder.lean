import McpFramework.Auth.Config

/-!
# Runner — Builder

`McpAppBuilder` and the endpoints it hands out to in-process callers
(`runner.rs`). What the builder only passes on (trait objects, stores, routers)
is a handle here: equal handles are the same shared object.
-/

namespace McpFramework

/-- The identity of an `Arc`, or of a closure. -/
abbrev Handle := Nat

inductive RegistryHandle where
  | given (registry : Handle)
  /-- The `n`th that `CapabilityRegistry::default` made. -/
  | default (n : Nat)
  deriving DecidableEq, Repr

inductive ToolCallLogger where
  | given (logger : Handle)
  /-- `CompositeLogger`: both receive every record. -/
  | composite (existing logger : ToolCallLogger)
  deriving DecidableEq, Repr

inductive TransportMode where
  | http
  | stdio
  deriving DecidableEq, Repr

structure Settings where
  transport : TransportMode
  bindAddr : String
  publicUrl : Option String
  /-- In nanoseconds. -/
  sessionTtl : Option Nat

/-- The TTL of the session store that is made when none is provided. -/
def sessionTtl (settings : Option Settings) : Nat :=
  (settings.bind (·.sessionTtl)).getD DEFAULT_SESSION_TTL

/-- Remembers whether an endpoint has been handed out, and what changed afterwards. -/
structure LoopbackGuard where
  handedOut : Bool
  diverged : List String

def LoopbackGuard.note (guard : LoopbackGuard) (field : String) : LoopbackGuard :=
  if guard.handedOut && !guard.diverged.contains field then
    { guard with diverged := guard.diverged ++ [field] }
  else guard

structure McpAppBuilder where
  name : String
  auth : AuthProvider
  /-- `()` until `server` is called. -/
  serverFactory : Option Handle
  stdioTokenEnv : Option String
  settings : Option Settings
  capabilityRegistry : Option RegistryHandle
  capabilityFilter : Option Handle
  accessValidator : Option Handle
  claimsDecoder : Option Handle
  sessionStore : Option Handle
  toolCallLogger : Option ToolCallLogger
  persistence : Option Handle
  protocolLifecycle : Handle
  maxProtocolVersion : Option String
  extraRoutes : Option Handle
  /-- Merged routers. -/
  publicRoutes : List Handle
  loopback : LoopbackGuard

structure McpApp where
  name : String
  auth : AuthProvider
  serverFactory : Handle
  stdioTokenEnv : Option String
  settings : Option Settings
  capabilityRegistry : Option RegistryHandle
  capabilityFilter : Option Handle
  accessValidator : Option Handle
  claimsDecoder : Option Handle
  sessionStore : Option Handle
  toolCallLogger : Option ToolCallLogger
  persistence : Option Handle
  protocolLifecycle : Handle
  maxProtocolVersion : Option String
  extraRoutes : Option Handle
  publicRoutes : List Handle

/-- A factory for in-process clients. Its two stores are new ones: what is left
of them is the claims decoder of the one and the TTL of the other. -/
structure LoopbackEndpoint where
  serverFactory : Handle
  registry : RegistryHandle
  filter : Option Handle
  accessValidator : Option Handle
  toolCallLogger : Option ToolCallLogger
  claimsDecoder : Option Handle
  sessionTtl : Nat
  tokenMode : TokenMode

namespace McpAppBuilder

def new (name : String) : McpAppBuilder where
  name := name
  auth := .none
  serverFactory := none
  stdioTokenEnv := none
  settings := none
  capabilityRegistry := none
  capabilityFilter := none
  accessValidator := none
  claimsDecoder := none
  sessionStore := none
  toolCallLogger := none
  persistence := none
  protocolLifecycle := 0
  maxProtocolVersion := none
  extraRoutes := none
  publicRoutes := []
  loopback := ⟨false, []⟩

/-! ## Setters -/

def note (b : McpAppBuilder) (field : String) : McpAppBuilder :=
  { b with loopback := b.loopback.note field }

/-- The store is for another type of session data. -/
def withSessions (b : McpAppBuilder) : McpAppBuilder :=
  { b.note "with_sessions" with sessionStore := none }

def setAuth (b : McpAppBuilder) (auth : AuthProvider) : McpAppBuilder :=
  { b with auth := auth }.note "auth"

def setStdioTokenEnv (b : McpAppBuilder) (envVar : String) : McpAppBuilder :=
  { b with stdioTokenEnv := some envVar }

def setSettings (b : McpAppBuilder) (settings : Settings) : McpAppBuilder :=
  { b with settings := some settings }.note "settings"

def setCapabilityRegistry (b : McpAppBuilder) (registry : RegistryHandle) : McpAppBuilder :=
  { b with capabilityRegistry := some registry }.note "capability_registry"

def setCapabilityFilter (b : McpAppBuilder) (filter : Handle) : McpAppBuilder :=
  { b with capabilityFilter := some filter }.note "capability_filter"

def setSessionStore (b : McpAppBuilder) (store : Handle) : McpAppBuilder :=
  { b with sessionStore := some store }.note "session_store"

def setAccessValidator (b : McpAppBuilder) (validator : Handle) : McpAppBuilder :=
  { b with accessValidator := some validator }.note "access_validator"

def setClaimsDecoder (b : McpAppBuilder) (decoder : Handle) : McpAppBuilder :=
  { b with claimsDecoder := some decoder }.note "claims_decoder"

def setToolCallLogger (b : McpAppBuilder) (logger : ToolCallLogger) : McpAppBuilder :=
  { b with toolCallLogger := some logger }.note "tool_call_logger"

def setPublicRoutes (b : McpAppBuilder) (routes : Handle) : McpAppBuilder :=
  { b with publicRoutes := b.publicRoutes ++ [routes] }

/-- `route` is what `metrics_router` makes of the collector. -/
def metrics (b : McpAppBuilder) (collector : Handle) (route : Option Handle) : McpAppBuilder :=
  let logger :=
    match b.toolCallLogger with
    | some existing => .composite existing (.given collector)
    | none => .given collector
  let b := { b with toolCallLogger := some logger }.note "metrics"
  match route with
  | some route => b.setPublicRoutes route
  | none => b

def setExtraRoutes (b : McpAppBuilder) (routes : Handle) : McpAppBuilder :=
  { b with extraRoutes := some routes }

def setPersistence (b : McpAppBuilder) (backend : Handle) : McpAppBuilder :=
  { b with persistence := some backend }

def setProtocolLifecycle (b : McpAppBuilder) (policy : Handle) : McpAppBuilder :=
  { b with protocolLifecycle := policy }

def setMaxProtocolVersion (b : McpAppBuilder) (version : String) : McpAppBuilder :=
  { b with maxProtocolVersion := some version }.note "max_protocol_version"

def withFactory (b : McpAppBuilder) (factory : Handle) : McpAppBuilder :=
  { b.note "server" with serverFactory := some factory }

def server (b : McpAppBuilder) (factory : Handle) : McpAppBuilder := b.withFactory factory

/-! ## Loopback and build -/

/-- `loopback`, which takes a factory. `created` is the number of registries that
`CapabilityRegistry::default` has made. -/
def handOut (b : McpAppBuilder) (created : Nat) :
    Option (LoopbackEndpoint × McpAppBuilder) :=
  b.serverFactory.map fun factory =>
    -- The builder keeps the registry it is handed out with.
    let registry := b.capabilityRegistry.getD (.default created)
    ({ serverFactory := factory
       registry := registry
       filter := b.capabilityFilter
       accessValidator := b.accessValidator
       toolCallLogger := b.toolCallLogger
       claimsDecoder := b.claimsDecoder
       sessionTtl := sessionTtl b.settings
       tokenMode := b.auth.tokenMode },
     { b with
       capabilityRegistry := some registry
       loopback := { b.loopback with handedOut := true } })

section Validate

-- The error of `SocketAddr::from_str`, if it fails, and `Duration`'s `Debug`.
variable (bindAddrError : String → Option String) (debugDuration : Nat → String)

def validateSettings : Option Settings → Except String Unit
  | none => .ok ()
  | some settings =>
    match bindAddrError settings.bindAddr with
    | some e => .error ("McpAppBuilder: invalid bind_addr '" ++ settings.bindAddr ++ "': " ++ e)
    | none =>
      match settings.sessionTtl with
      | some ttl =>
        if ttl < Duration.fromSecs 1 then
          .error ("McpAppBuilder: session_ttl must be at least 1 second, got " ++ debugDuration ttl)
        else .ok ()
      | none => .ok ()

def validateAuth : AuthProvider → Except String Unit
  | .oauth oauth =>
    if oauth.clientId.isEmpty then .error "McpAppBuilder: OAuth client_id must not be empty"
    else if oauth.issuerUrl.isEmpty then
      .error "McpAppBuilder: OAuth issuer_url must not be empty"
    else if oauth.redirectUrl.isEmpty then
      .error "McpAppBuilder: OAuth redirect_url must not be empty"
    else oauth.validate.mapError ("McpAppBuilder: " ++ ·)
  | .none => .ok ()
  | .basic _ => .ok ()

def validateLoopback (guard : LoopbackGuard) : Except String Unit :=
  if !guard.diverged.isEmpty then
    .error ("McpAppBuilder: " ++ ", ".intercalate guard.diverged ++
      " set after `loopback()` handed out an endpoint — that endpoint " ++
      "kept the earlier value, so in-process callers and network clients would no longer " ++
      "take the same path. Configure everything before calling `loopback()`.")
  else .ok ()

def validate (b : McpAppBuilder) : Except String Unit := do
  validateSettings bindAddrError debugDuration b.settings
  validateAuth b.auth
  validateLoopback b.loopback

/-- `build` is there once `server` was called. -/
def build (b : McpAppBuilder) : Except String (Option McpApp) := do
  b.validate bindAddrError debugDuration
  pure (b.serverFactory.map fun factory =>
    { name := b.name
      auth := b.auth
      serverFactory := factory
      stdioTokenEnv := b.stdioTokenEnv
      settings := b.settings
      capabilityRegistry := b.capabilityRegistry
      capabilityFilter := b.capabilityFilter
      accessValidator := b.accessValidator
      claimsDecoder := b.claimsDecoder
      sessionStore := b.sessionStore
      toolCallLogger := b.toolCallLogger
      persistence := b.persistence
      protocolLifecycle := b.protocolLifecycle
      maxProtocolVersion := b.maxProtocolVersion
      extraRoutes := b.extraRoutes
      publicRoutes := b.publicRoutes })

end Validate

end McpAppBuilder
end McpFramework
