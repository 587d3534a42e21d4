import Mathlib.Data.List.Basic
import McpFramework.Core.Json

/-!
# Auth — Credential

What the middleware reads from a bearer without verifying it: the claims of a
token shaped like a JWT, and the session identity derived from them
(`auth/middleware.rs`).

Base64, `serde_json` and SHA-256 are third-party code, so a `Codec` is a
parameter. Nothing below assumes anything of it: two credentials may even
collide.
-/

namespace McpFramework

/-- The third-party decoders and hash a credential goes through. -/
structure Codec where
  /-- Unpadded base64url, then `serde_json::from_slice`. -/
  decode : String → Option Json
  /-- The digest of a string's UTF-8 bytes. -/
  sha256 : String → List Nat

variable (c : Codec)

/-- `{b:02x}`. -/
def hexByte (b : Nat) : String :=
  String.ofList [Nat.digitChar (b / 16), Nat.digitChar (b % 16)]

/-- Truncated sha256 hex of an arbitrary string. -/
def shortHash (value : String) : String :=
  ((c.sha256 value).take 16).foldl (fun acc b => acc ++ hexByte b) ""

/-- Decode one base64url JWT segment into a JSON object. -/
def decodeJwtSegment (segment : String) : Option (List (String × Json)) :=
  if segment = "" then none
  else
    match c.decode segment with
    | some (.obj map) => some map
    | _ => none

def splitDots (token : String) : List String := (token.toList.splitOn '.').map String.ofList

/-- The payload claims of a token that is actually shaped like a JWT: exactly
three segments, a signature, and a header with a string `alg`. -/
def jwtPayload (token : String) : Option (List (String × Json)) :=
  match splitDots token with
  | [header, payload, signature] =>
    if signature = "" then none
    else
      match (decodeJwtSegment c header).bind (·.lookup "alg") with
      | some alg => if alg.isString then decodeJwtSegment c payload else none
      | none => none
  | _ => none

/-- A string claim of a JWT. -/
def jwtClaim (token claim : String) : Option String :=
  ((jwtPayload c token).bind (·.lookup claim)).bind Json.asStr

/-- A numeric (seconds-since-epoch) claim of a JWT. -/
def jwtTimestamp (token claim : String) : Option Nat :=
  ((jwtPayload c token).bind (·.lookup claim)).bind Json.asU64

def jwtSubject (token : String) : Option String := jwtClaim c token "sub"

/-- Whether the `exp` claim of a JWT is in the past; `none` without one. -/
def jwtIsExpired (clock : Clock) (token : String) : Option Bool :=
  (jwtTimestamp c token "exp").map fun exp => decide (exp ≤ clock.unix / 1000000000)

/-- Whether `candidate` was issued strictly after `incumbent`: by `iat`, or by
`exp` where one of them has no `iat`. -/
def jwtIsStrictlyNewer (candidate incumbent : String) : Option Bool :=
  match jwtTimestamp c candidate "iat", jwtTimestamp c incumbent "iat" with
  | some new, some old => some (decide (new > old))
  | _, _ =>
    match jwtTimestamp c candidate "exp", jwtTimestamp c incumbent "exp" with
    | some new, some old => some (decide (new > old))
    | _, _ => none

/-- Derive a stable session identity from a credential: its `sid`, its `sub`,
or its bytes. -/
def credentialSessionKey (credential : String) : String :=
  match jwtClaim c credential "sid" with
  | some sid => "cred-sid-" ++ shortHash c sid
  | none =>
    match jwtClaim c credential "sub" with
    | some sub => "cred-sub-" ++ shortHash c sub
    | none => "cred-" ++ shortHash c credential

/-- Whether a new bearer belongs to the principal of the previous one: the same
`sub`, or the same derived key, which covers a token with `sid` and no `sub`. -/
def samePrincipal (token previous : String) : Bool :=
  (match jwtSubject c token, jwtSubject c previous with
    | some newSub, some prevSub => decide (newSub = prevSub)
    | _, _ => false) ||
  decide (credentialSessionKey c token = credentialSessionKey c previous)

end McpFramework
