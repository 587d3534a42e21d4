import McpFramework.Auth.Registration
import McpFramework.Auth.SessionHeader
import McpFramework.Core.JsonObject
import McpFramework.Lib.Decimal

/-!
# Transport — Protocol

Which revisions of the protocol are offered, and what becomes of a client that
announces a sessionless revision through the old lifecycle
(`transport/protocol.rs`): its `initialize` is rewritten to the last revision that
has sessions, before the service behind sees it.

Revisions are named by ISO dates and compared as strings.
-/

namespace McpFramework.Protocol

open Lib
open Lib.BTreeMap (get remove containsKey)

def MODERN_PROTOCOL_VERSION : String := "2026-07-28"
def LEGACY_FALLBACK_VERSION : String := "2025-11-25"
def MCP_PROTOCOL_VERSION_HEADER : String := "mcp-protocol-version"
def CONTENT_LENGTH : String := "content-length"
def MAX_REQUEST_BODY_BYTES : Nat := 4 * 1024 * 1024

/-! ## Revisions -/

/-- Drop every revision above `max`, unless nothing would be left. -/
def capProtocolVersions (advertised : List String) (max : Option String) : List String :=
  match max with
  | none => advertised
  | some max =>
    let capped := advertised.filter fun version => decide (version ≤ max)
    if capped.isEmpty then advertised else capped

/-- Ten bytes in the shape of a date. A character that is not ASCII has no byte
that is a digit or `-`. -/
def isModernDateVersion (version : String) : Bool :=
  match version.toList with
  | [y₀, y₁, y₂, y₃, d₀, m₀, m₁, d₁, t₀, t₁] =>
    d₀ == '-' && d₁ == '-' && [y₀, y₁, y₂, y₃, m₀, m₁, t₀, t₁].all isDigit &&
      decide (MODERN_PROTOCOL_VERSION ≤ version)
  | _ => false

/-- A date as it is written; that it is in the calendar is nowhere asked. -/
structure IsoDate where
  year : Nat
  month : Nat
  day : Nat
  year_lt : year < 10 ^ 4
  month_lt : month < 10 ^ 2
  day_lt : day < 10 ^ 2

namespace IsoDate

def text (date : IsoDate) : String :=
  String.ofList (decimal 4 date.year ++ ('-' :: (decimal 2 date.month ++
    ('-' :: decimal 2 date.day))))

/-- The earlier day. -/
def before (date date' : IsoDate) : Prop :=
  date.year < date'.year ∨ date.year = date'.year ∧
    (date.month < date'.month ∨ date.month = date'.month ∧ date.day < date'.day)

/-- Dates are in the order of their texts. -/
theorem text_lt_iff (date date' : IsoDate) : date.text < date'.text ↔ date.before date' := by
  have hyear : decimal 4 date.year = decimal 4 date'.year ↔ date.year = date'.year :=
    ⟨decimal_inj date.year_lt date'.year_lt, fun h => h ▸ rfl⟩
  have hmonth : decimal 2 date.month = decimal 2 date'.month ↔ date.month = date'.month :=
    ⟨decimal_inj date.month_lt date'.month_lt, fun h => h ▸ rfl⟩
  rw [String.lt_iff_toList_lt, text, text, String.toList_ofList, String.toList_ofList,
    append_lt_append_iff (by simp), decimal_lt_iff date.year_lt date'.year_lt, hyear,
    List.cons_lt_cons_self, append_lt_append_iff (by simp),
    decimal_lt_iff date.month_lt date'.month_lt, hmonth, List.cons_lt_cons_self,
    decimal_lt_iff date.day_lt date'.day_lt]
  rfl

theorem text_le_iff (date date' : IsoDate) : date.text ≤ date'.text ↔ ¬ date'.before date := by
  rw [← text_lt_iff, not_lt]

end IsoDate

/-- The first revision without sessions. -/
def modernDate : IsoDate := ⟨2026, 7, 28, by decide, by decide, by decide⟩

theorem modernDate_text : modernDate.text = MODERN_PROTOCOL_VERSION := by decide

theorem isModernDateVersion_iff (version : String) :
    isModernDateVersion version = true ↔
      ∃ date : IsoDate, version = date.text ∧ ¬ date.before modernDate := by
  constructor
  · intro h
    unfold isModernDateVersion at h
    split at h
    · next y₀ y₁ y₂ y₃ d₀ m₀ m₁ d₁ t₀ t₁ hlist =>
      simp only [Bool.and_eq_true, beq_iff_eq, decide_eq_true_eq] at h
      obtain ⟨⟨⟨rfl, rfl⟩, hdigits⟩, hle⟩ := h
      have hdigit : ∀ c ∈ [y₀, y₁, y₂, y₃, m₀, m₁, t₀, t₁], isDigit c = true :=
        List.all_eq_true.mp hdigits
      obtain ⟨year, hyear, hy⟩ := @exists_decimal [y₀, y₁, y₂, y₃] fun c hc =>
        hdigit c (by simp only [List.mem_cons, List.not_mem_nil, or_false] at hc ⊢; tauto)
      obtain ⟨month, hmonth, hm⟩ := @exists_decimal [m₀, m₁] fun c hc =>
        hdigit c (by simp only [List.mem_cons, List.not_mem_nil, or_false] at hc ⊢; tauto)
      obtain ⟨day, hday, ht⟩ := @exists_decimal [t₀, t₁] fun c hc =>
        hdigit c (by simp only [List.mem_cons, List.not_mem_nil, or_false] at hc ⊢; tauto)
      have htext : version = (IsoDate.mk year month day hyear hmonth hday).text := by
        rw [← String.toList_inj, hlist, IsoDate.text, String.toList_ofList]
        show _ = decimal [y₀, y₁, y₂, y₃].length year ++ ('-' ::
          (decimal [m₀, m₁].length month ++ ('-' :: decimal [t₀, t₁].length day)))
        rw [← hy, ← hm, ← ht]
        rfl
      refine ⟨_, htext, ?_⟩
      rw [← IsoDate.text_le_iff, modernDate_text, ← htext]
      exact hle
    · cases h
  · rintro ⟨date, rfl, hdate⟩
    rw [← IsoDate.text_le_iff, modernDate_text] at hdate
    have hy := fun c hc => isDigit_of_mem_decimal date.year_lt (c := c) hc
    have hm := fun c hc => isDigit_of_mem_decimal date.month_lt (c := c) hc
    have ht := fun c hc => isDigit_of_mem_decimal date.day_lt (c := c) hc
    unfold isModernDateVersion
    rw [show date.text.toList = _ from String.toList_ofList]
    simp only [decimal, List.cons_append, List.nil_append] at hy hm ht ⊢
    simp only [beq_self_eq_true, Bool.true_and, Bool.and_eq_true, decide_eq_true_eq]
    refine ⟨List.all_eq_true.mpr fun c hc => ?_, hdate⟩
    simp only [List.mem_cons, List.not_mem_nil, or_false] at hc hy hm ht
    rcases hc with h | h | h | h | h | h | h | h
    · exact hy c (by tauto)
    · exact hy c (by tauto)
    · exact hy c (by tauto)
    · exact hy c (by tauto)
    · exact hm c (by tauto)
    · exact hm c (by tauto)
    · exact ht c (by tauto)
    · exact ht c (by tauto)

/-- **What is offered**: of revisions that are dates, those up to the ceiling, in
their order, and all of them where the ceiling is before every one. -/
theorem capProtocolVersions_dates (dates : List IsoDate) (max : IsoDate) :
    ∃ offered : List IsoDate, offered.Sublist dates ∧
      capProtocolVersions (dates.map IsoDate.text) (some max.text) = offered.map IsoDate.text ∧
      ((∃ date ∈ dates, ¬ max.before date) →
        ∀ date ∈ dates, date ∈ offered ↔ ¬ max.before date) ∧
      ((∀ date ∈ dates, max.before date) → offered = dates) := by
  classical
  have hfilter : (dates.map IsoDate.text).filter (fun version => decide (version ≤ max.text)) =
      (dates.filter fun date => decide (¬ max.before date)).map IsoDate.text := by
    rw [List.filter_map]
    refine congrArg _ (List.filter_congr fun date _ => ?_)
    exact decide_eq_decide.mpr (IsoDate.text_le_iff date max)
  by_cases hsome : ∃ date ∈ dates, ¬ max.before date
  · obtain ⟨kept, hkept, hbefore⟩ := hsome
    have hmem : kept ∈ dates.filter fun date => decide (¬ max.before date) :=
      List.mem_filter.mpr ⟨hkept, decide_eq_true hbefore⟩
    have hne : ((dates.filter fun date => decide (¬ max.before date)).map IsoDate.text).isEmpty =
        false := by
      rw [List.isEmpty_eq_false_iff_exists_mem]
      exact ⟨_, List.mem_map_of_mem hmem⟩
    refine ⟨dates.filter fun date => decide (¬ max.before date), List.filter_sublist, ?_, ?_, ?_⟩
    · rw [capProtocolVersions, hfilter]
      simp only [hne, Bool.false_eq_true, if_false]
    · intro _ date hdate
      rw [List.mem_filter, decide_eq_true_eq]
      exact ⟨And.right, fun h => ⟨hdate, h⟩⟩
    · exact fun hall => absurd (hall kept hkept) hbefore
  · have hnil : dates.filter (fun date => decide (¬ max.before date)) = [] := by
      rw [List.filter_eq_nil_iff]
      intro date hdate hkeep
      exact hsome ⟨date, hdate, of_decide_eq_true hkeep⟩
    refine ⟨dates, List.Sublist.refl _, ?_, fun h => absurd h hsome, fun _ => rfl⟩
    rw [capProtocolVersions, hfilter, hnil]
    rfl

/-! ## The ceiling -/

structure ConfigError where
  message : String

/-- Values that explicitly mean that there is no ceiling. -/
def UNCAPPED_ALIASES : List String := ["none", "off", "latest", "unset"]

def MAX_PROTOCOL_VERSION_ENV : String := "MCP_MAX_PROTOCOL_VERSION"

section Ceiling

-- `ProtocolVersion::KNOWN_VERSIONS`, and how a string is quoted.
variable (known : List String) (debug : String → String)

def unknownRevision (value : String) : ConfigError :=
  ⟨MAX_PROTOCOL_VERSION_ENV ++ ": unknown MCP revision " ++ debug value ++ " (known: " ++
    String.intercalate ", " known ++ ")"⟩

def validateMaxProtocolVersion (max : Option String) : Except ConfigError (Option String) :=
  match max with
  | none => .ok none
  | some version =>
    if version ∈ known then .ok (some version) else .error (unknownRevision known debug version)

/-- `env` is the variable, where it is set to something readable. -/
def resolveMaxProtocolVersion (env : Option String) (builderDefault : Option String) :
    Except ConfigError (Option String) :=
  match env with
  | none => validateMaxProtocolVersion known debug builderDefault
  | some raw =>
    let trimmed := trim raw
    if trimmed = "" then validateMaxProtocolVersion known debug builderDefault
    else if UNCAPPED_ALIASES.any (Registration.eqIgnoreAsciiCase trimmed) then .ok none
    else if trimmed ∈ known then .ok (some trimmed)
    else .error (unknownRevision known debug trimmed)

theorem mem_of_ok_some {version raw : String} {e : ConfigError}
    (h : (if raw ∈ known then .ok (some raw) else .error e : Except ConfigError (Option String)) =
      .ok (some version)) : version ∈ known := by
  by_cases hmem : raw ∈ known
  · rw [if_pos hmem] at h
    have hraw : raw = version := by
      injection h with h
      injection h
    rw [← hraw]
    exact hmem
  · rw [if_neg hmem] at h
    exact Except.noConfusion rfl rfl (heq_of_eq h)

theorem mem_known_of_validate {max : Option String} {version : String}
    (h : validateMaxProtocolVersion known debug max = .ok (some version)) : version ∈ known := by
  cases max with
  | none =>
    unfold validateMaxProtocolVersion at h
    injection h with h
    injection h
  | some raw => exact mem_of_ok_some known h

/-- A ceiling is a known revision, wherever it comes from. -/
theorem mem_known_of_resolve {env builderDefault : Option String} {version : String}
    (h : resolveMaxProtocolVersion known debug env builderDefault = .ok (some version)) :
    version ∈ known := by
  cases env with
  | none => exact mem_known_of_validate known debug h
  | some raw =>
    unfold resolveMaxProtocolVersion at h
    simp only at h
    by_cases hempty : trim raw = ""
    · rw [if_pos hempty] at h
      exact mem_known_of_validate known debug h
    · rw [if_neg hempty] at h
      by_cases huncapped :
          UNCAPPED_ALIASES.any (Registration.eqIgnoreAsciiCase (trim raw)) = true
      · rw [if_pos huncapped] at h
        injection h with h
        injection h
      · rw [if_neg huncapped] at h
        exact mem_of_ok_some known h

end Ceiling

/-! ## The lifecycle -/

inductive ProtocolLifecyclePolicy where
  | hybrid
  | strict
deriving DecidableEq

structure HttpRequest where
  isPost : Bool
  headers : HeaderMap
  body : List UInt8

/-- The service behind, or an answer before it. -/
inductive Outcome where
  | next (request : HttpRequest)
  | payloadTooLarge
  | internalServerError

/-- The revision a request asks for, and the request with the old one in its
place. -/
def normalizeInitialize (value : Json) : Option (String × Json) :=
  value.asObject.bind fun object =>
    if (get object "method").bind Json.asStr = some "initialize" then
      ((get object "params").bind Json.asObject).bind fun params =>
        ((get params "protocolVersion").bind Json.asStr).bind fun requested =>
          if isModernDateVersion requested then
            some (requested, .obj (BTreeMap.insert object "params"
              (.obj (BTreeMap.insert params "protocolVersion" (.str LEGACY_FALLBACK_VERSION)))))
          else none
    else none

/-- `from_slice` and `to_vec` of `serde_json`. -/
structure JsonBytes where
  fromSlice : List UInt8 → Option Json
  toVec : Json → Option (List UInt8)

/-- What the header says of the revision. -/
def headerVersion (headers : HeaderMap) : Option String :=
  (get headers MCP_PROTOCOL_VERSION_HEADER).bind HeaderValue.toStr

/-- The headers of a rewritten request: a matching revision is rewritten too. -/
def normalizeHeaders (headers : HeaderMap) (requested : String) : HeaderMap :=
  let headers :=
    if headerVersion headers = some requested then
      MultiMap.insert headers MCP_PROTOCOL_VERSION_HEADER (.text LEGACY_FALLBACK_VERSION)
    else headers
  remove headers CONTENT_LENGTH

def normalizeProtocolLifecycle (json : JsonBytes) (policy : ProtocolLifecyclePolicy)
    (request : HttpRequest) : Outcome :=
  if policy ≠ .hybrid ∨ request.isPost = false then .next request
  else if request.body.length > MAX_REQUEST_BODY_BYTES then .payloadTooLarge
  else
    match (json.fromSlice request.body).bind normalizeInitialize with
    | none => .next request
    | some (requested, value) =>
      match json.toVec value with
      | some bytes =>
        .next
          { request with
            headers := normalizeHeaders request.headers requested
            body := bytes }
      | none => .internalServerError

section Lifecycle

variable {value value' : Json} {requested : String}

/-- An `initialize` for a revision. -/
structure Initializes (value : Json) (version : String) : Prop where
  method : (value.get "method").bind Json.asStr = some "initialize"
  version : ((value.get "params").bind fun params => params.get "protocolVersion").bind Json.asStr =
    some version

/-- The same request for another revision. -/
structure SameBut (value value' : Json) (version : String) : Prop where
  members : ∀ key, key ≠ "params" → value'.get key = value.get key
  params : ∀ key, key ≠ "protocolVersion" →
    ((value'.get "params").bind fun params => params.get key) =
      (value.get "params").bind fun params => params.get key
  version : Initializes value' version

theorem normalizeInitialize_some (h : normalizeInitialize value = some (requested, value')) :
    Initializes value requested ∧ isModernDateVersion requested = true ∧
      SameBut value value' LEGACY_FALLBACK_VERSION := by
  unfold normalizeInitialize at h
  obtain ⟨object, hobject, h⟩ := Option.bind_eq_some_iff.mp h
  split at h
  · next hmethod =>
    obtain ⟨params, hparams, h⟩ := Option.bind_eq_some_iff.mp h
    obtain ⟨version, hversion, h⟩ := Option.bind_eq_some_iff.mp h
    split at h
    · next hmodern =>
      cases h
      obtain ⟨paramsValue, hget, hparamsObject⟩ := Option.bind_eq_some_iff.mp hparams
      have hvalue : ∀ key, value.get key = get object key := by
        intro key
        rw [Json.get, hobject]
        rfl
      have hinner : ∀ key, ((value.get "params").bind fun params => params.get key) =
          get params key := by
        intro key
        rw [hvalue, hget, Option.bind_some, Json.get, hparamsObject]
        rfl
      refine ⟨⟨?_, ?_⟩, hmodern, ?_, ?_, ?_, ?_⟩
      · rw [hvalue]
        exact hmethod
      · rw [hinner]
        exact hversion
      · intro key hkey
        rw [hvalue, Json.get_obj, BTreeMap.get_insert_of_ne _ _ hkey]
      · intro key hkey
        rw [hinner, Json.get_obj, BTreeMap.get_insert_self, Option.bind_some, Json.get_obj,
          BTreeMap.get_insert_of_ne _ _ hkey]
      · rw [Json.get_obj, BTreeMap.get_insert_of_ne _ _ (by decide)]
        exact hmethod
      · rw [Json.get_obj, BTreeMap.get_insert_self, Option.bind_some, Json.get_obj,
          BTreeMap.get_insert_self]
        rfl
    · cases h
  · cases h

/-- Every `initialize` for a modern revision is rewritten. -/
theorem normalizeInitialize_of_initializes (h : Initializes value requested)
    (hmodern : isModernDateVersion requested = true) :
    ∃ value', normalizeInitialize value = some (requested, value') := by
  obtain ⟨versionValue, hversion, hstr⟩ := Option.bind_eq_some_iff.mp h.version
  obtain ⟨params, hparams, hget⟩ := Option.bind_eq_some_iff.mp hversion
  obtain ⟨object, rfl, hobject⟩ := Json.exists_obj_of_get hparams
  obtain ⟨inner, rfl, hinner⟩ := Json.exists_obj_of_get hget
  have hmethod := h.method
  rw [Json.get_obj] at hmethod
  unfold normalizeInitialize
  simp only [Json.asObject, Option.bind_some, hmethod, if_true, hobject, hinner, hstr, hmodern]
  exact ⟨_, rfl⟩

/-- A revision is no longer asked for once it has been rewritten. -/
theorem legacy_not_modern : isModernDateVersion LEGACY_FALLBACK_VERSION = false := by decide

/-- What becomes of the headers: the two of the body follow it. A revision in the
header that was right for the body stays right, and one that was wrong stays
wrong unless it was the old one. -/
structure HeadersFollow (headers headers' : HeaderMap) (requested : String) : Prop where
  others : ∀ name, name ≠ MCP_PROTOCOL_VERSION_HEADER → name ≠ CONTENT_LENGTH →
    MultiMap.getAll headers' name = MultiMap.getAll headers name
  noLength : get headers' CONTENT_LENGTH = none
  agrees : headerVersion headers' = some LEGACY_FALLBACK_VERSION ↔
    headerVersion headers = some requested ∨ headerVersion headers = some LEGACY_FALLBACK_VERSION

theorem getAll_of_filter {headers headers' : HeaderMap} {name : String}
    (h : headers'.filter (fun e => decide (e.1 = name)) =
      headers.filter fun e => decide (e.1 = name)) :
    MultiMap.getAll headers' name = MultiMap.getAll headers name :=
  congrArg (List.map Prod.snd) h

theorem headersFollow (headers : HeaderMap) (requested : String) :
    HeadersFollow headers (normalizeHeaders headers requested) requested := by
  have hne : MCP_PROTOCOL_VERSION_HEADER ≠ CONTENT_LENGTH := by decide
  have hremove : ∀ (m : HeaderMap) (name : String), name ≠ CONTENT_LENGTH →
      (remove m CONTENT_LENGTH).filter (fun e => decide (e.1 = name)) =
        m.filter fun e => decide (e.1 = name) := by
    intro m name hname
    unfold remove
    rw [List.filter_filter]
    refine List.filter_congr fun e _ => ?_
    by_cases he : e.1 = name
    · simp [he, hname]
    · simp [he]
  refine ⟨fun name hversion hlength => ?_, BTreeMap.get_remove_self _ _, ?_⟩
  · refine getAll_of_filter ?_
    unfold normalizeHeaders
    rw [hremove _ _ hlength]
    split
    · have hkept := MultiMap.filter_insert (m := headers) (k := MCP_PROTOCOL_VERSION_HEADER)
        (v := HeaderValue.text LEGACY_FALLBACK_VERSION) (p := fun key => decide (key = name))
        (decide_eq_false fun h => hversion h.symm)
      exact hkept
    · rfl
  · unfold normalizeHeaders
    have hget : ∀ m : HeaderMap, headerVersion (remove m CONTENT_LENGTH) = headerVersion m := by
      intro m
      rw [headerVersion, BTreeMap.get_remove_of_ne _ hne, headerVersion]
    rw [hget]
    split
    · next hrequested =>
      rw [headerVersion, MultiMap.get_insert_self]
      exact ⟨fun _ => Or.inl hrequested, fun _ => rfl⟩
    · next hrequested =>
      constructor
      · exact Or.inr
      · rintro (h | h)
        · exact absurd h hrequested
        · exact h

end Lifecycle

/-- A POST whose body is an `initialize` for a modern revision. -/
def AsksForModern (json : JsonBytes) (request : HttpRequest) : Prop :=
  request.isPost = true ∧ ∃ value version, json.fromSlice request.body = some value ∧
    Initializes value version ∧ isModernDateVersion version = true

/-- The request with the old revision in its body, and headers to match. -/
structure Repaired (json : JsonBytes) (request request' : HttpRequest) : Prop where
  isPost : request'.isPost = request.isPost
  body : ∃ value value' requested, json.fromSlice request.body = some value ∧
    Initializes value requested ∧ isModernDateVersion requested = true ∧
    SameBut value value' LEGACY_FALLBACK_VERSION ∧ json.toVec value' = some request'.body ∧
    HeadersFollow request.headers request'.headers requested

/-- **What the service behind is sent** under the hybrid policy: every request as it
came, but for an `initialize` for a modern revision, of which the revision alone
is changed. -/
theorem hybrid_next {json : JsonBytes} {request request' : HttpRequest}
    (h : normalizeProtocolLifecycle json .hybrid request = .next request') :
    (¬ AsksForModern json request ∧ request' = request) ∨
      (AsksForModern json request ∧ Repaired json request request') := by
  unfold normalizeProtocolLifecycle at h
  split at h
  · next hskip =>
    cases h
    refine Or.inl ⟨fun hasks => ?_, rfl⟩
    rcases hskip with hpolicy | hpost
    · exact hpolicy rfl
    · rw [hasks.1] at hpost
      cases hpost
  · next hhandled =>
    have hpost : request.isPost = true := by
      cases hp : request.isPost with
      | true => rfl
      | false => exact absurd (Or.inr hp) hhandled
    split at h
    · cases h
    · split at h
      · next hnone =>
        cases h
        refine Or.inl ⟨fun hasks => ?_, rfl⟩
        obtain ⟨-, value, version, hvalue, hinit, hmodern⟩ := hasks
        obtain ⟨value', hsome⟩ := normalizeInitialize_of_initializes hinit hmodern
        rw [hvalue, Option.bind_some, hsome] at hnone
        cases hnone
      · next requested value' hsome =>
        obtain ⟨value, hvalue, hnorm⟩ := Option.bind_eq_some_iff.mp hsome
        obtain ⟨hinit, hmodern, hsame⟩ := normalizeInitialize_some hnorm
        split at h
        · next bytes hbytes =>
          cases h
          exact Or.inr ⟨⟨hpost, value, requested, hvalue, hinit, hmodern⟩, rfl, value, value',
            requested, hvalue, hinit, hmodern, hsame, hbytes, headersFollow _ _⟩
        · cases h

def initializeFor (version : String) : Json :=
  .obj [("method", .str "initialize"), ("params", .obj [("protocolVersion", .str version)])]

/-- That value as it is written. -/
def initializeBytes (version : String) : List UInt8 :=
  ("\x7b\"method\":\"initialize\",\"params\":\x7b\"protocolVersion\":\"" ++ version ++
    "\"\x7d\x7d").toUTF8.toList

/-- The readings that the example needs. -/
def exampleJson : JsonBytes :=
  { fromSlice := fun bytes =>
      if bytes = initializeBytes "2026-07-28" then some (initializeFor "2026-07-28") else none
    toVec := fun value =>
      (((value.get "params").bind fun params => params.get "protocolVersion").bind
        Json.asStr).map initializeBytes }

def exampleRequest : HttpRequest :=
  ⟨true, [(MCP_PROTOCOL_VERSION_HEADER, .text "2026-07-28")], initializeBytes "2026-07-28"⟩

theorem modern_initialize_repaired :
    ∃ request' : HttpRequest, request'.body = initializeBytes "2025-11-25" ∧
      ((¬ AsksForModern exampleJson exampleRequest ∧ request' = exampleRequest) ∨
        (AsksForModern exampleJson exampleRequest ∧
          Repaired exampleJson exampleRequest request')) := by
  have hlength : ¬ exampleRequest.body.length > MAX_REQUEST_BODY_BYTES := by decide +kernel
  have hread : exampleJson.fromSlice exampleRequest.body = some (initializeFor "2026-07-28") :=
    if_pos rfl
  have hnext : normalizeProtocolLifecycle exampleJson .hybrid exampleRequest =
      .next ⟨true, normalizeHeaders exampleRequest.headers "2026-07-28",
        initializeBytes "2025-11-25"⟩ := by
    rw [normalizeProtocolLifecycle, if_neg (by decide), if_neg hlength, hread]
    rfl
  exact ⟨_, rfl, hybrid_next hnext⟩

end McpFramework.Protocol
