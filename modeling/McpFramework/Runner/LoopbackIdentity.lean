import McpFramework.Auth.SessionHeader

/-!
# Runner — LoopbackIdentity

Who an in-process caller is (`transport/loopback.rs`): the identity is checked
when it connects, written into the headers a network client would have sent, and
read back from them by each call.

The check asks for less than reading back does: a header may hold bytes above
`0x7f`, and `to_str` refuses them.
-/

namespace McpFramework

open Lib
open Lib.BTreeMap (get)

/-! ## Identities -/

/-- Of the extensions, the two credential types the auth middleware owns. -/
structure LoopbackIdentity where
  sessionId : String
  bearerToken : Option String
  requestTokenExtension : Option StoredToken
  bearerTokenExtension : Option String

/-- What connecting refuses of an identity. -/
inductive LoopbackConnectError where
  | invalidIdentity (message : String)
deriving DecidableEq

namespace LoopbackIdentity

/-- An anonymous caller. -/
def new (sessionId : String) : LoopbackIdentity := ⟨sessionId, none, none, none⟩

def withBearerToken (identity : LoopbackIdentity) (token : String) : LoopbackIdentity :=
  { identity with bearerToken := some token }

/-- `Builder::header`: the value is appended, or the request is in error. -/
def header (headers : HeaderMap) (name value : String) : Except String HeaderMap :=
  match HeaderValue.parse value with
  | some value => .ok (headers ++ [(name, value)])
  | none => .error "failed to parse header value"

def buildParts (identity : LoopbackIdentity) : Except String Parts := do
  let headers ← header [] MCP_SESSION_ID_HEADER identity.sessionId
  let headers ←
    match identity.bearerToken with
    | some token => header headers AUTHORIZATION_HEADER ("Bearer " ++ token)
    | none => pure headers
  return ⟨headers, identity.bearerTokenExtension, identity.requestTokenExtension⟩

/-- Refuse an identity the framework could not carry faithfully. -/
def validate (identity : LoopbackIdentity) : Except LoopbackConnectError Unit :=
  if identity.sessionId = "" then .error (.invalidIdentity "the session id is empty")
  else if identity.requestTokenExtension.isSome || identity.bearerTokenExtension.isSome then
    .error (.invalidIdentity
      ("a credential extension (RequestToken / BearerToken) is written only by the auth " ++
        "middleware — present a credential with `with_bearer_token`"))
  else
    match identity.buildParts with
    | .ok _ => .ok ()
    | .error e => .error (.invalidIdentity e)

/-- Rebuild the request metadata a network client would have carried. -/
def toParts (identity : LoopbackIdentity) : Option Parts := identity.buildParts.toOption

end LoopbackIdentity

/-- Of the extensions, the request parts a call came with. -/
def enrichExtensions (loopbackIdentity : Option LoopbackIdentity) (extensions : Option Parts) :
    Option Parts :=
  match loopbackIdentity.bind LoopbackIdentity.toParts with
  | some parts => some parts
  | none => extensions

namespace LoopbackIdentity

/-- The session of a call of this caller, whatever the call came with. -/
def session (identity : LoopbackIdentity) (extensions : Option Parts) : String :=
  resolveSessionId (enrichExtensions (some identity) extensions)

/-! ## Reading back -/

variable {identity : LoopbackIdentity}

/-- The parts of an identity that passes the check hold its session id, as a
header holds it. -/
theorem toParts_of_validate (h : identity.validate = .ok ()) :
    ∃ value parts, HeaderValue.parse identity.sessionId = some value ∧
      identity.toParts = some parts ∧
      get parts.headers MCP_FALLBACK_SESSION_HEADER = none ∧
      get parts.headers MCP_SESSION_ID_HEADER = some value := by
  unfold validate at h
  split at h
  · cases h
  split at h
  · cases h
  split at h
  · next parts hparts =>
    have htoParts : identity.toParts = some parts := by rw [toParts, hparts]; rfl
    unfold buildParts header at hparts
    cases hvalue : HeaderValue.parse identity.sessionId with
    | none =>
      rw [hvalue] at hparts
      cases hparts
    | some value =>
      refine ⟨value, parts, rfl, htoParts, ?_⟩
      rw [hvalue] at hparts
      cases htoken : identity.bearerToken with
      | none =>
        rw [htoken] at hparts
        cases hparts
        exact ⟨rfl, rfl⟩
      | some token =>
        rw [htoken] at hparts
        cases hbearer : HeaderValue.parse ("Bearer " ++ token) with
        | none =>
          simp only [hbearer] at hparts
          cases hparts
        | some bearer =>
          simp only [hbearer] at hparts
          cases hparts
          exact ⟨rfl, rfl⟩
  · cases h

/-- What is read back: the id if `to_str` can read it, else the shared session. -/
theorem session_of_validate (h : identity.validate = .ok ()) (extensions : Option Parts) :
    (Visible identity.sessionId → identity.session extensions = identity.sessionId) ∧
      (¬ Visible identity.sessionId → identity.session extensions = DEFAULT_SESSION_ID) := by
  obtain ⟨value, parts, hvalue, hparts, hfallback, hsid⟩ := toParts_of_validate h
  have hsession : identity.session extensions = (value.toStr).getD DEFAULT_SESSION_ID := by
    rw [session, enrichExtensions, Option.bind_some, hparts]
    simp [resolveSessionId, Parts.sessionId, hfallback, hsid]
  rw [hsession]
  constructor
  · intro hvisible
    rw [hvisible.parse, Option.some.injEq] at hvalue
    rw [← hvalue]
    rfl
  · intro hhidden
    unfold HeaderValue.parse at hvalue
    split at hvalue
    · split at hvalue
      · exact absurd (Visible.of_all ‹_›) hhidden
      · cases hvalue
        rfl
    · cases hvalue

/-- The callers that share the default session. -/
def Defaulted (identity : LoopbackIdentity) : Prop :=
  ¬ Visible identity.sessionId ∨ identity.sessionId = DEFAULT_SESSION_ID

theorem session_eq_default_iff (h : identity.validate = .ok ()) (extensions : Option Parts) :
    identity.session extensions = DEFAULT_SESSION_ID ↔ identity.Defaulted := by
  obtain ⟨hvisible, hhidden⟩ := session_of_validate h extensions
  by_cases hv : Visible identity.sessionId
  · rw [hvisible hv, Defaulted]
    simp [hv]
  · rw [hhidden hv, Defaulted]
    simp [hv]

/-- **Whose session a caller gets.** Of the callers the check accepts, one gets
the session it names if and only if its id is visible ASCII, space and tab; and
two that name different sessions get different ones unless both are thrown
together in the default session. -/
theorem loopback_session_iff (h : identity.validate = .ok ()) :
    ((∀ extensions, identity.session extensions = identity.sessionId) ↔
      Visible identity.sessionId) ∧
    ∀ other : LoopbackIdentity, other.validate = .ok () →
      other.sessionId ≠ identity.sessionId →
        ((∀ extensions extensions', identity.session extensions ≠ other.session extensions') ↔
          ¬ (identity.Defaulted ∧ other.Defaulted)) := by
  refine ⟨⟨fun hown => ?_, fun hv extensions => (session_of_validate h extensions).1 hv⟩, ?_⟩
  · by_contra hhidden
    have hdefault := (session_of_validate h none).2 hhidden
    rw [hown none] at hdefault
    rw [hdefault] at hhidden
    exact hhidden (Visible.of_all (by decide))
  · intro other hother hne
    constructor
    · rintro hdiffer ⟨hdefault, hdefault'⟩
      refine hdiffer none none ?_
      rw [(session_eq_default_iff h none).mpr hdefault,
        (session_eq_default_iff hother none).mpr hdefault']
    · intro hapart extensions extensions' hsame
      by_cases hdefault : identity.Defaulted
      · have hsession := (session_eq_default_iff h extensions).mpr hdefault
        rw [hsame] at hsession
        exact hapart ⟨hdefault, (session_eq_default_iff hother extensions').mp hsession⟩
      · have hdefault' : ¬ other.Defaulted := fun hother' => by
          have hsession := (session_eq_default_iff hother extensions').mpr hother'
          rw [← hsame] at hsession
          exact hdefault ((session_eq_default_iff h extensions).mp hsession)
        have hv : Visible identity.sessionId := not_not.mp fun hhidden => hdefault (.inl hhidden)
        have hv' : Visible other.sessionId := not_not.mp fun hhidden => hdefault' (.inl hhidden)
        rw [(session_of_validate h extensions).1 hv,
          (session_of_validate hother extensions').1 hv'] at hsame
        exact hne hsame.symm

theorem thread_gets_its_session :
    (new "thread-42").session none = "thread-42" :=
  (@loopback_session_iff (new "thread-42") (by decide)).1.mpr
    (Visible.of_all (by decide)) none

/-- Callers café and thé are accepted, and both get the session "default". -/
theorem accented_callers_share_a_session :
    ¬ ∀ identity : LoopbackIdentity, identity.validate = .ok () →
      (∀ extensions, identity.session extensions = identity.sessionId) ∧
        ∀ other : LoopbackIdentity, other.validate = .ok () →
          other.sessionId ≠ identity.sessionId →
            ∀ extensions extensions', identity.session extensions ≠ other.session extensions' := by
  intro h
  exact (h (new "café") (by decide)).2 (new "thé") (by decide) (by decide) none none (by decide)

end LoopbackIdentity
end McpFramework
