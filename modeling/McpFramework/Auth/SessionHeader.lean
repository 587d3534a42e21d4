import McpFramework.Auth.Middleware
import McpFramework.Lib.MultiMap

/-!
# Auth — SessionHeader

The session identity of a request, on both sides of the middleware: derived
before the handler runs (`auth/middleware.rs`), and read back from the headers
(`session/mod.rs`).
-/

namespace McpFramework

open Lib
open Lib.BTreeMap (get remove containsKey)

/-! ## Header values -/

/-- `is_valid` of a header byte. The bytes of a character that is not ASCII are
all above `0x7f`. -/
def isHeaderChar (ch : Char) : Bool := (32 ≤ ch.toNat && ch.toNat != 127) || ch == '\t'

def isVisibleAscii (ch : Char) : Bool := (32 ≤ ch.toNat && ch.toNat < 127) || ch == '\t'

/-- `HeaderValue::from_str`. -/
def HeaderValue.parse (s : String) : Option HeaderValue :=
  if s.toList.all isHeaderChar then
    some (if s.toList.all isVisibleAscii then .text s else .opaqueBytes)
  else none

/-- What `from_str` takes and `to_str` gives back. -/
def Visible (s : String) : Prop := ∀ ch ∈ s.toList, isVisibleAscii ch = true

theorem Visible.of_all {s : String} (h : s.toList.all isVisibleAscii = true) : Visible s :=
  List.all_eq_true.mp h

theorem isHeaderChar_of_visible {ch : Char} (h : isVisibleAscii ch = true) :
    isHeaderChar ch = true := by
  unfold isVisibleAscii at h
  unfold isHeaderChar
  rcases (Bool.or_eq_true ..).mp h with h | h
  · obtain ⟨hlow, hhigh⟩ := (Bool.and_eq_true ..).mp h
    have hne : ch.toNat ≠ 127 := by
      have := of_decide_eq_true hhigh
      omega
    simp [hlow, hne]
  · simp [h]

theorem Visible.parse {s : String} (h : Visible s) : HeaderValue.parse s = some (.text s) := by
  have hvisible : s.toList.all isVisibleAscii = true := List.all_eq_true.mpr h
  have hvalid : s.toList.all isHeaderChar = true :=
    List.all_eq_true.mpr fun ch hch => isHeaderChar_of_visible (h ch hch)
  rw [HeaderValue.parse, if_pos hvalid, if_pos hvisible]

theorem Visible.append {s t : String} (hs : Visible s) (ht : Visible t) : Visible (s ++ t) := by
  intro ch hch
  rw [String.toList_append] at hch
  rcases List.mem_append.mp hch with hch | hch
  · exact hs ch hch
  · exact ht ch hch

theorem visible_digitChar (n : Nat) : isVisibleAscii (Nat.digitChar n) = true := by
  by_cases h : n < 16
  · have hdigits : ∀ n < 16, isVisibleAscii (Nat.digitChar n) = true := by decide
    exact hdigits n h
  · -- What is no digit is written as a star.
    have hstar : Nat.digitChar n = '*' := by
      unfold Nat.digitChar
      simp only [show ∀ d < 16, n ≠ d from fun d hd => by omega, if_false, Nat.reduceLT]
    rw [hstar]
    decide

/-! ## Requests -/

def MCP_SESSION_ID_HEADER : String := "mcp-session-id"
def MCP_FALLBACK_SESSION_HEADER : String := "x-mcp-framework-session"
def AUTHORIZATION_HEADER : String := "authorization"
def DEFAULT_SESSION_ID : String := "default"

/-- Lower-case names, each with any number of values. -/
abbrev HeaderMap := MultiMap String HeaderValue

/-- `http::request::Parts`: the headers, and the extensions `BearerToken` and
`RequestToken`, which only the auth middleware attaches. -/
structure Parts where
  headers : HeaderMap
  bearerToken : Option String
  requestToken : Option StoredToken

namespace Parts

/-- A request as it arrives. -/
def ofHeaders (headers : HeaderMap) : Parts := ⟨headers, none, none⟩

def setFrameworkSessionId (parts : Parts) (sessionId : String) : Parts :=
  match HeaderValue.parse sessionId with
  | some value =>
    { parts with headers := MultiMap.insert parts.headers MCP_FALLBACK_SESSION_HEADER value }
  | none => parts

def stripFrameworkSessionHeader (parts : Parts) : Parts :=
  { parts with headers := remove parts.headers MCP_FALLBACK_SESSION_HEADER }

/-- What the middleware of a bearer looks at. -/
def request (parts : Parts) : Request :=
  { authorization := get parts.headers AUTHORIZATION_HEADER
    mcpSessionId := get parts.headers MCP_SESSION_ID_HEADER }

/-- `resolve_or_derive_session_id`, with what it makes of the request. -/
def resolveOrDerive (c : Codec) (parts : Parts) (credential : String) : Parts × String :=
  match (get parts.headers MCP_SESSION_ID_HEADER).bind HeaderValue.toStr with
  | some sid => (parts, sid)
  | none =>
    let derived := credentialSessionKey c credential
    (parts.setFrameworkSessionId derived, derived)

/-- `session_id_from_parts`. -/
def sessionId (parts : Parts) : String :=
  (((get parts.headers MCP_FALLBACK_SESSION_HEADER).or
    (get parts.headers MCP_SESSION_ID_HEADER)).bind HeaderValue.toStr).getD DEFAULT_SESSION_ID

end Parts

/-- Without an HTTP request there is the default session. -/
def resolveSessionId (parts : Option Parts) : String :=
  (parts.map Parts.sessionId).getD DEFAULT_SESSION_ID

/-- What filters, validators and tools are given: the credential attached to the
request, or the token of its session. -/
def resolveToken (env : Surroundings) (st : TokenStore) (parts : Option Parts) : Got :=
  match parts.bind (·.requestToken) with
  | some token => ⟨st, some token, []⟩
  | none => st.getToken env.clock env.endpoint (resolveSessionId parts)

/-! ## Agreement -/

theorem visible_hexByte (b : Nat) : Visible (hexByte b) := by
  intro ch hch
  rw [hexByte, String.toList_ofList] at hch
  simp only [List.mem_cons, List.not_mem_nil, or_false] at hch
  rcases hch with rfl | rfl
  · exact visible_digitChar _
  · exact visible_digitChar _

/-- A hash is written in digits, whatever was hashed. -/
theorem visible_shortHash (c : Codec) (value : String) : Visible (shortHash c value) := by
  unfold shortHash
  have hfold : ∀ (bytes : List Nat) (acc : String), Visible acc →
      Visible (bytes.foldl (fun acc b => acc ++ hexByte b) acc) := by
    intro bytes
    induction bytes with
    | nil => exact fun _ h => h
    | cons b bytes ih => exact fun acc h => ih _ (h.append (visible_hexByte b))
  exact hfold _ "" (fun ch hch => absurd hch (by simp))

theorem visible_credentialSessionKey (c : Codec) (credential : String) :
    Visible (credentialSessionKey c credential) := by
  unfold credentialSessionKey
  split
  · exact (Visible.of_all (by decide)).append (visible_shortHash c _)
  · split
    · exact (Visible.of_all (by decide)).append (visible_shortHash c _)
    · exact (Visible.of_all (by decide)).append (visible_shortHash c _)

namespace Parts

variable {c : Codec} {parts : Parts} {sid : String}

theorem get_stripFrameworkSessionHeader (parts : Parts) :
    get parts.stripFrameworkSessionHeader.headers MCP_FALLBACK_SESSION_HEADER = none :=
  BTreeMap.get_remove_self _ _

/-- The framework's own header wins. -/
theorem sessionId_setFrameworkSessionId (parts : Parts) (h : Visible sid) :
    (parts.setFrameworkSessionId sid).sessionId = sid := by
  unfold setFrameworkSessionId sessionId
  rw [h.parse]
  simp [HeaderValue.toStr]

/-- The id the middleware works with is the one the handler reads, however often
`mcp-session-id` is there and whatever is in it. -/
theorem sessionId_resolveOrDerive (credential : String)
    (h : get parts.headers MCP_FALLBACK_SESSION_HEADER = none) :
    (parts.resolveOrDerive c credential).1.sessionId =
      (parts.resolveOrDerive c credential).2 := by
  unfold resolveOrDerive
  split
  · next hsid => rw [sessionId, h, Option.none_or, hsid, Option.getD_some]
  · exact sessionId_setFrameworkSessionId parts (visible_credentialSessionKey c credential)

end Parts
end McpFramework
