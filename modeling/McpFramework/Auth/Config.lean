import McpFramework.Core.Time

/-!
# Auth — Config

The authentication providers (`auth/config.rs`) and the combinations that the
framework refuses to start with.
-/

namespace McpFramework

/-- How OAuth tokens are issued to clients. -/
inductive TokenMode where
  | passthrough
  | opaqueTokens
  | resourceServer
  deriving DecidableEq, Repr

/-- Whether the mode keeps OAuth tokens server-side. -/
def TokenMode.isStateful (mode : TokenMode) : Bool := decide (mode ≠ .resourceServer)

/-- How a bearer is validated that `/oauth/token` did not issue. -/
inductive UnknownTokenValidation where
  | jwks
  | introspection
  | jwksThenIntrospection
  | reject
  deriving DecidableEq, Repr

structure OAuthConfig where
  clientId : String
  clientSecret : Option String
  issuerUrl : String
  redirectUrl : String
  scopes : List String
  tokenMode : TokenMode
  unknownTokenValidation : UnknownTokenValidation
  expectedAudiences : List String
  allowedRedirectUris : List String

structure BasicAuthConfig where
  username : String
  password : String

inductive AuthProvider where
  | none
  | basic (config : BasicAuthConfig)
  | oauth (config : OAuthConfig)

def OAuthConfig.validate (config : OAuthConfig) : Except String Unit :=
  if config.tokenMode ≠ .resourceServer then .ok ()
  else if config.expectedAudiences.isEmpty then
    .error ("MCP_TOKEN_MODE=resource_server requires OAUTH_EXPECTED_AUDIENCE to be set " ++
      "(comma-separated). A pure resource server accepts a bearer on its signature " ++
      "alone, so without an audience it would accept every token the issuer signs, " ++
      "for any service. Set it to the audience Keycloak puts in this server's tokens.")
  else
    match config.unknownTokenValidation with
    | .reject =>
      .error ("MCP_TOKEN_MODE=resource_server is incompatible with " ++
        "OAUTH_UNKNOWN_TOKEN_VALIDATION=reject: every bearer is an 'unknown' bearer " ++
        "in resource-server mode (the framework issues none), so nothing would ever " ++
        "be accepted. Use jwks.")
    | .introspection =>
      .error ("MCP_TOKEN_MODE=resource_server is incompatible with " ++
        "OAUTH_UNKNOWN_TOKEN_VALIDATION=introspection: RFC 7662 answers whether a " ++
        "token is active, not who it was minted for, so it cannot enforce " ++
        "OAUTH_EXPECTED_AUDIENCE — any token the issuer ever signed, for any " ++
        "service, introspects as active. Use jwks.")
    -- Coerced to `jwks`, with a warning.
    | .jwksThenIntrospection => .ok ()
    | .jwks => .ok ()

/-- Only OAuth has a token mode; everything else behaves as `Passthrough`. -/
def AuthProvider.tokenMode : AuthProvider → TokenMode
  | .oauth config => config.tokenMode
  | .none => .passthrough
  | .basic _ => .passthrough

end McpFramework
