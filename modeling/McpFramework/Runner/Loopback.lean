import McpFramework.Runner.Builder
import McpFramework.Lib.Transition

/-!
# Runner — Loopback

The calls that configure an application, in any order, and what the endpoints
handed out on the way have in common with the application that is built.
-/

namespace McpFramework

open Lib

/-! ## Snapshots -/

/-- What decides how a caller is served. -/
structure Snapshot where
  serverFactory : Option Handle
  registry : Option RegistryHandle
  filter : Option Handle
  accessValidator : Option Handle
  toolCallLogger : Option ToolCallLogger
  claimsDecoder : Option Handle
  sessionTtl : Nat
  tokenMode : TokenMode

def McpAppBuilder.snapshot (b : McpAppBuilder) : Snapshot where
  serverFactory := b.serverFactory
  registry := b.capabilityRegistry
  filter := b.capabilityFilter
  accessValidator := b.accessValidator
  toolCallLogger := b.toolCallLogger
  claimsDecoder := b.claimsDecoder
  sessionTtl := McpFramework.sessionTtl b.settings
  tokenMode := b.auth.tokenMode

def LoopbackEndpoint.snapshot (e : LoopbackEndpoint) : Snapshot where
  serverFactory := some e.serverFactory
  registry := some e.registry
  filter := e.filter
  accessValidator := e.accessValidator
  toolCallLogger := e.toolCallLogger
  claimsDecoder := e.claimsDecoder
  sessionTtl := e.sessionTtl
  tokenMode := e.tokenMode

def McpApp.snapshot (app : McpApp) : Snapshot where
  serverFactory := some app.serverFactory
  registry := app.capabilityRegistry
  filter := app.capabilityFilter
  accessValidator := app.accessValidator
  toolCallLogger := app.toolCallLogger
  claimsDecoder := app.claimsDecoder
  sessionTtl := McpFramework.sessionTtl app.settings
  tokenMode := app.auth.tokenMode

/-- In-process callers are served as network clients are. -/
structure LoopbackEndpoint.ServedAs (e : LoopbackEndpoint) (app : McpApp) : Prop where
  serverFactory : e.serverFactory = app.serverFactory
  registry : some e.registry = app.capabilityRegistry
  filter : e.filter = app.capabilityFilter
  accessValidator : e.accessValidator = app.accessValidator
  toolCallLogger : e.toolCallLogger = app.toolCallLogger
  claimsDecoder : e.claimsDecoder = app.claimsDecoder
  sessionTtl : e.sessionTtl = McpFramework.sessionTtl app.settings
  tokenMode : e.tokenMode = app.auth.tokenMode

theorem LoopbackEndpoint.servedAs_of_snapshot {e : LoopbackEndpoint} {app : McpApp}
    (h : e.snapshot = app.snapshot) : e.ServedAs app where
  serverFactory := Option.some.inj (congrArg Snapshot.serverFactory h)
  registry := congrArg Snapshot.registry h
  filter := congrArg Snapshot.filter h
  accessValidator := congrArg Snapshot.accessValidator h
  toolCallLogger := congrArg Snapshot.toolCallLogger h
  claimsDecoder := congrArg Snapshot.claimsDecoder h
  sessionTtl := congrArg Snapshot.sessionTtl h
  tokenMode := congrArg Snapshot.tokenMode h

namespace LoopbackGuard

@[simp] theorem handedOut_note (guard : LoopbackGuard) (field : String) :
    (guard.note field).handedOut = guard.handedOut := by
  unfold note
  split <;> rfl

/-- After an endpoint was handed out every note leaves a trace. -/
theorem diverged_note_ne_nil {guard : LoopbackGuard} (h : guard.handedOut = true)
    (field : String) : (guard.note field).diverged ≠ [] := by
  unfold note
  rw [h, Bool.true_and]
  by_cases hin : guard.diverged.contains field = true
  · rw [hin]
    intro hnil
    have hdiverged : guard.diverged = [] := hnil
    rw [hdiverged] at hin
    cases hin
  · rw [Bool.not_eq_true] at hin
    rw [hin]
    exact List.append_ne_nil_of_right_ne_nil _ (List.cons_ne_nil _ _)

end LoopbackGuard

/-! ## Calls -/

/-- The setters, in the order of the source. -/
inductive Setter where
  | withSessions
  | auth (provider : AuthProvider)
  | stdioTokenEnv (envVar : String)
  | settings (manual : Settings)
  | capabilityRegistry (registry : Handle)
  | capabilityFilter (filter : Handle)
  | sessionStore (store : Handle)
  | accessValidator (validator : Handle)
  | claimsDecoder (decoder : Handle)
  | toolCallLogger (logger : ToolCallLogger)
  | metrics (collector : Handle) (route : Option Handle)
  | extraRoutes (routes : Handle)
  | publicRoutes (routes : Handle)
  | persistence (backend : Handle)
  | protocolLifecycle (policy : Handle)
  | maxProtocolVersion (version : String)
  | server (factory : Handle)

def Setter.apply : Setter → McpAppBuilder → McpAppBuilder
  | .withSessions, b => b.withSessions
  | .auth provider, b => b.setAuth provider
  | .stdioTokenEnv envVar, b => b.setStdioTokenEnv envVar
  | .settings manual, b => b.setSettings manual
  | .capabilityRegistry registry, b => b.setCapabilityRegistry (.given registry)
  | .capabilityFilter filter, b => b.setCapabilityFilter filter
  | .sessionStore store, b => b.setSessionStore store
  | .accessValidator validator, b => b.setAccessValidator validator
  | .claimsDecoder decoder, b => b.setClaimsDecoder decoder
  | .toolCallLogger logger, b => b.setToolCallLogger logger
  | .metrics collector route, b => b.metrics collector route
  | .extraRoutes routes, b => b.setExtraRoutes routes
  | .publicRoutes routes, b => b.setPublicRoutes routes
  | .persistence backend, b => b.setPersistence backend
  | .protocolLifecycle policy, b => b.setProtocolLifecycle policy
  | .maxProtocolVersion version, b => b.setMaxProtocolVersion version
  | .server factory, b => b.server factory

/-- A setter notes itself or leaves alone what an endpoint takes from the builder. -/
theorem Setter.apply_cases (setter : Setter) (b : McpAppBuilder) :
    ((setter.apply b).snapshot = b.snapshot ∧ (setter.apply b).loopback = b.loopback) ∨
      ∃ field, (setter.apply b).loopback = b.loopback.note field := by
  cases setter with
  | stdioTokenEnv _ => exact Or.inl ⟨rfl, rfl⟩
  | extraRoutes _ => exact Or.inl ⟨rfl, rfl⟩
  | publicRoutes _ => exact Or.inl ⟨rfl, rfl⟩
  | persistence _ => exact Or.inl ⟨rfl, rfl⟩
  | protocolLifecycle _ => exact Or.inl ⟨rfl, rfl⟩
  | metrics collector route =>
    right
    -- The route that is mounted last notes nothing of its own.
    cases route with
    | none => exact ⟨"metrics", rfl⟩
    | some _ => exact ⟨"metrics", rfl⟩
  | withSessions => exact Or.inr ⟨"with_sessions", rfl⟩
  | auth _ => exact Or.inr ⟨"auth", rfl⟩
  | settings _ => exact Or.inr ⟨"settings", rfl⟩
  | capabilityRegistry _ => exact Or.inr ⟨"capability_registry", rfl⟩
  | capabilityFilter _ => exact Or.inr ⟨"capability_filter", rfl⟩
  | sessionStore _ => exact Or.inr ⟨"session_store", rfl⟩
  | accessValidator _ => exact Or.inr ⟨"access_validator", rfl⟩
  | claimsDecoder _ => exact Or.inr ⟨"claims_decoder", rfl⟩
  | toolCallLogger _ => exact Or.inr ⟨"tool_call_logger", rfl⟩
  | maxProtocolVersion _ => exact Or.inr ⟨"max_protocol_version", rfl⟩
  | server _ => exact Or.inr ⟨"server", rfl⟩

inductive Call where
  | set (setter : Setter)
  | loopback

/-- A builder on its way, with the endpoints it handed out. -/
structure Configuration where
  builder : McpAppBuilder
  endpoints : List LoopbackEndpoint
  /-- How many registries were made. -/
  created : Nat

namespace Configuration

def start (name : String) : Configuration := ⟨McpAppBuilder.new name, [], 0⟩

/-- `loopback` is not there before `server` was called. -/
def step (c : Configuration) : Call → Option Configuration
  | .set setter => some { c with builder := setter.apply c.builder }
  | .loopback =>
    (c.builder.handOut c.created).map fun (e, builder) =>
      { builder := builder
        endpoints := e :: c.endpoints
        created := if c.builder.capabilityRegistry.isNone then c.created + 1 else c.created }

def calls : System Configuration Call := ⟨step⟩

/-- Reached from a new builder by some calls. -/
def Reached (name : String) (c : Configuration) : Prop :=
  calls.Reach (fun _ _ => True) (start name) c

/-- Nothing is handed out unnoticed, and what diverges is recorded. -/
structure Coherent (c : Configuration) : Prop where
  before : c.builder.loopback.handedOut = false → c.endpoints = []
  after : c.builder.loopback.diverged = [] →
    ∀ e ∈ c.endpoints, e.snapshot = c.builder.snapshot

theorem coherent_start (name : String) : Coherent (start name) where
  before _ := rfl
  after _ _ he := absurd he List.not_mem_nil

theorem Coherent.set {c : Configuration} (h : c.Coherent) (setter : Setter) :
    Coherent { c with builder := setter.apply c.builder } := by
  rcases setter.apply_cases c.builder with ⟨hsnapshot, hguard⟩ | ⟨field, hguard⟩
  · constructor
    · intro hout
      exact h.before (hguard ▸ hout)
    · intro hnil e he
      show e.snapshot = (setter.apply c.builder).snapshot
      rw [hsnapshot]
      exact h.after (hguard ▸ hnil) e he
  · constructor
    · intro hout
      exact h.before (by simpa [hguard] using hout)
    · intro hnil e he
      cases hout : c.builder.loopback.handedOut with
      | false =>
        rw [h.before hout] at he
        cases he
      | true =>
        have hnote : (c.builder.loopback.note field).diverged = [] := hguard ▸ hnil
        exact absurd hnote (LoopbackGuard.diverged_note_ne_nil hout field)

/-- What an endpoint takes is what the builder is left with. -/
theorem snapshot_handOut {b b' : McpAppBuilder} {created : Nat} {e : LoopbackEndpoint}
    (h : b.handOut created = some (e, b')) : e.snapshot = b'.snapshot := by
  obtain ⟨factory, hfactory, heq⟩ := Option.map_eq_some_iff.mp h
  cases heq
  simp only [LoopbackEndpoint.snapshot, McpAppBuilder.snapshot, hfactory]

/-- Once there is a registry another endpoint changes nothing. -/
theorem snapshot_handOut_of_registry {b b' : McpAppBuilder} {created : Nat}
    {e : LoopbackEndpoint} (h : b.handOut created = some (e, b'))
    {registry : RegistryHandle} (hr : b.capabilityRegistry = some registry) :
    b'.snapshot = b.snapshot := by
  obtain ⟨factory, -, heq⟩ := Option.map_eq_some_iff.mp h
  cases heq
  simp only [McpAppBuilder.snapshot, hr, Option.getD_some]

theorem loopback_handOut {b b' : McpAppBuilder} {created : Nat} {e : LoopbackEndpoint}
    (h : b.handOut created = some (e, b')) :
    b'.loopback = { b.loopback with handedOut := true } := by
  obtain ⟨factory, -, heq⟩ := Option.map_eq_some_iff.mp h
  cases heq
  rfl

theorem Coherent.step {c c' : Configuration} {call : Call} (h : c.Coherent)
    (hs : c.step call = some c') : c'.Coherent := by
  cases call with
  | set setter =>
    cases hs
    exact h.set setter
  | loopback =>
    obtain ⟨⟨e, b'⟩, hout, heq⟩ := Option.map_eq_some_iff.mp hs
    cases heq
    have hguard := loopback_handOut hout
    constructor
    · intro hfalse
      have htrue : b'.loopback.handedOut = true := by rw [hguard]
      exact absurd (htrue.symm.trans hfalse) (by decide)
    · intro hnil e' he'
      have hnil' : c.builder.loopback.diverged = [] := by
        have hsame : b'.loopback.diverged = c.builder.loopback.diverged := by rw [hguard]
        exact hsame ▸ hnil
      rcases List.mem_cons.mp he' with rfl | he'
      · exact snapshot_handOut hout
      · -- An earlier endpoint shares its registry with the builder already.
        have hearlier := h.after hnil' e' he'
        have hregistry : c.builder.capabilityRegistry = some e'.registry :=
          (congrArg Snapshot.registry hearlier).symm
        exact hearlier.trans (snapshot_handOut_of_registry hout hregistry).symm

theorem Reached.coherent {name : String} {c : Configuration} (h : Reached name c) : c.Coherent :=
  h.invariant (coherent_start name) fun _ _ _ hc _ hs => hc.step hs

end Configuration

/-! ## Build -/

namespace McpAppBuilder

variable {bindAddrError : String → Option String} {debugDuration : Nat → String}

/-- What is wrong with the loopback guard is wrong with the builder. -/
theorem diverged_of_validate {b : McpAppBuilder}
    (h : b.validate bindAddrError debugDuration = .ok ()) : b.loopback.diverged = [] := by
  unfold validate at h
  cases hsettings : validateSettings bindAddrError debugDuration b.settings with
  | error e =>
    rw [hsettings] at h
    cases h
  | ok _ =>
    cases hauth : validateAuth b.auth with
    | error e =>
      rw [hsettings, hauth] at h
      cases h
    | ok _ =>
      rw [hsettings, hauth] at h
      have hlast : validateLoopback b.loopback = .ok () := h
      unfold validateLoopback at hlast
      split at hlast
      · cases hlast
      · next hempty => simpa using hempty

/-- What is built is what the builder held, and the guard let it pass. -/
theorem build_spec {b : McpAppBuilder} {app : McpApp}
    (h : b.build bindAddrError debugDuration = .ok (some app)) :
    b.loopback.diverged = [] ∧ b.snapshot = app.snapshot := by
  unfold build at h
  cases hvalid : b.validate bindAddrError debugDuration with
  | error e =>
    rw [hvalid] at h
    cases h
  | ok _ =>
    refine ⟨diverged_of_validate hvalid, ?_⟩
    rw [hvalid] at h
    obtain ⟨factory, hfactory, heq⟩ := Option.map_eq_some_iff.mp (Except.ok.inj h)
    cases heq
    simp only [snapshot, McpApp.snapshot, hfactory]

end McpAppBuilder

/-- **No endpoint diverges from the application that is served**: whatever was
configured, in whatever order, before, between and after the endpoints. -/
theorem loopback_served_as_built (bindAddrError : String → Option String)
    (debugDuration : Nat → String) {name : String} {c : Configuration}
    (hr : Configuration.Reached name c) {app : McpApp}
    (h : c.builder.build bindAddrError debugDuration = .ok (some app))
    {e : LoopbackEndpoint} (he : e ∈ c.endpoints) : e.ServedAs app := by
  obtain ⟨hdiverged, hbuilt⟩ := McpAppBuilder.build_spec h
  have hsame : e.snapshot = app.snapshot := (hr.coherent.after hdiverged e he).trans hbuilt
  exact LoopbackEndpoint.servedAs_of_snapshot hsame

/-- An endpoint before, and one after, a setting that no endpoint takes. -/
def twoEndpoints : List Call :=
  [.set (.capabilityFilter 1), .set (.server 2), .loopback, .set (.persistence 3), .loopback]

theorem loopback_served_as_built_twoEndpoints :
    ∃ c app, Configuration.Reached "engine" c ∧
      c.builder.build (fun _ => none) (fun _ => "") = .ok (some app) ∧
      c.endpoints.length = 2 ∧ ∀ e ∈ c.endpoints, e.ServedAs app := by
  have hrun : (Configuration.calls.run (fun _ _ => True) (.start "engine") twoEndpoints).isSome :=
    rfl
  have hr := System.reach_get hrun
  exact ⟨_, _, hr, rfl, rfl, fun e he =>
    loopback_served_as_built (fun _ => none) (fun _ => "") hr rfl he⟩

end McpFramework
