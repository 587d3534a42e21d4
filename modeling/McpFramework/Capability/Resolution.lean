import McpFramework.Capability.Handler
import McpFramework.Capability.Sanitize

/-!
# Capability — Resolution

Which of two sources a tool name stands for: the registry or the inner handler.

`list_tools`, `get_tool` and `call_tool` (`capability/handler.rs`) each decide it
on their own. Listing and calling let the registry win; `get_tool` says so in its
comment and asks the inner handler only.
-/

namespace McpFramework

open Lib

-- `Ctx` is what a call carries beside its arguments: peer, meta, session, token
-- and request.
variable {Ctx : Type}

/-! ## The registry with its handlers -/

/-- What runs a dynamic tool. -/
abbrev StoredHandler (Ctx : Type) := Option JsonObject → Option Ctx → Except McpError Json

/-- The registry, each tool with its handler and under its own name. -/
structure ToolRegistry (Ctx : Type) where
  tools : HashMap String (Tool × StoredHandler Ctx)
  prompts : HashMap String Prompt
  resources : HashMap String Resource
  version : Nat
  named : ∀ name entry, tools.get? name = some entry → entry.1.name = name

namespace ToolRegistry

/-- The registry without the handlers. -/
def capabilities (r : ToolRegistry Ctx) : CapabilityRegistry :=
  { tools := r.tools.mapValues (·.1), prompts := r.prompts, resources := r.resources
    version := r.version }

def addTool (r : ToolRegistry Ctx) (tool : Tool) (handler : StoredHandler Ctx) :
    ToolRegistry Ctx :=
  { r with
    tools := r.tools.insert tool.name (tool, handler)
    named := fun name entry h => by
      rw [HashMap.get?_insert] at h
      split at h
      · cases h
        exact ‹name = tool.name›.symm
      · exact r.named name entry h }

def removeTool (r : ToolRegistry Ctx) (name : String) : ToolRegistry Ctx × Bool :=
  ({ r with
    tools := r.tools.remove name
    named := fun name' entry h => by
      rw [HashMap.get?_remove] at h
      split at h
      · cases h
      · exact r.named name' entry h }, r.tools.containsKey name)

def containsTool (r : ToolRegistry Ctx) (name : String) : Bool := r.tools.containsKey name

/-- `none`: not registered, the caller falls back to the inner handler. -/
def tryCallTool (r : ToolRegistry Ctx) (name : String) (args : Option JsonObject)
    (context : Option Ctx) : Option (Except McpError Json) :=
  (r.tools.get? name).map fun entry => entry.2 args context

theorem capabilities_addTool (r : ToolRegistry Ctx) (tool : Tool) (handler : StoredHandler Ctx) :
    (r.addTool tool handler).capabilities = (r.capabilities.mutate (.addTool tool)).1 := by
  simp [capabilities, addTool, CapabilityRegistry.mutate, HashMap.mapValues_insert]

theorem capabilities_removeTool (r : ToolRegistry Ctx) (name : String) :
    ((r.removeTool name).1.capabilities, (r.removeTool name).2) =
      r.capabilities.mutate (.removeTool name) := by
  simp [capabilities, removeTool, CapabilityRegistry.mutate, HashMap.mapValues_remove,
    HashMap.containsKey, HashMap.get?_mapValues]

/-- Of all that is registered, what is listed under a name is what is stored there. -/
theorem listed_of_name (r : ToolRegistry Ctx) (name : String) :
    (r.capabilities.tools.values.filter fun t => decide (t.name = name)) =
      ((r.tools.get? name).map (·.1)).toList := by
  have hnamed : ∀ k t, r.capabilities.tools.get? k = some t → t.name = k := by
    intro k t h
    rw [capabilities, HashMap.get?_mapValues, Option.map_eq_some_iff] at h
    obtain ⟨entry, hentry, rfl⟩ := h
    exact r.named k entry hentry
  rw [HashMap.filter_values hnamed, capabilities, HashMap.get?_mapValues]

theorem mem_listed_iff (r : ToolRegistry Ctx) (name : String) :
    (∃ t ∈ r.capabilities.tools.values, t.name = name) ↔ r.containsTool name = true := by
  have hlisted := r.listed_of_name name
  rw [containsTool, HashMap.containsKey]
  constructor
  · rintro ⟨t, hmem, rfl⟩
    have ht : t ∈ r.capabilities.tools.values.filter fun t' => decide (t'.name = t.name) :=
      List.mem_filter.mpr ⟨hmem, by simp⟩
    rw [hlisted, Option.mem_toList, Option.map_eq_some_iff] at ht
    obtain ⟨entry, hentry, -⟩ := ht
    simp [hentry]
  · intro h
    obtain ⟨entry, hentry⟩ := Option.isSome_iff_exists.mp h
    have ht : entry.1 ∈ r.capabilities.tools.values.filter fun t => decide (t.name = name) := by
      rw [hlisted, hentry]
      simp
    obtain ⟨hmem, hname⟩ := List.mem_filter.mp ht
    exact ⟨entry.1, hmem, by simpa using hname⟩

end ToolRegistry

/-! ## The handler -/

/-- What a tool answers; the framework passes it on. -/
inductive CallToolResponse where
  | complete (result : Json)
  | inputRequired (request : Json)
  | task (task : Json)

structure CallToolRequest where
  name : String
  arguments : Option JsonObject

/-- The inner handler: its lists, its definitions by name, and what it runs for a
name. `notFound` is its answer where it runs nothing. -/
structure InnerHandler (Ctx : Type) extends ServerHandler where
  getTool : String → Option Tool
  runs : String → Option (Option JsonObject → Ctx → Except McpError CallToolResponse)
  notFound : CallToolRequest → Ctx → Except McpError CallToolResponse

def InnerHandler.callTool (inner : InnerHandler Ctx) (request : CallToolRequest) (context : Ctx) :
    Except McpError CallToolResponse :=
  match inner.runs request.name with
  | some run => run request.arguments context
  | none => inner.notFound request context

inductive AccessDecision where
  | allow
  | deny (reason : String)

/-- Who answered a call, as the audit records it. -/
inductive ToolCallSource where
  | registry
  | inner
deriving DecidableEq

/-- The tools of a `DynamicHandler`. -/
structure ToolHandler (Ctx : Type) where
  inner : InnerHandler Ctx
  registry : ToolRegistry Ctx
  filter : Option CapabilityFilter
  queryFilter : List String
  accessValidator : Option (String → Option JsonObject → Ctx → AccessDecision)

namespace ToolHandler

variable (toJson : Json → String) (handler : ToolHandler Ctx)

def lists : DynamicHandler :=
  { inner := handler.inner.toServerHandler, registry := handler.registry.capabilities
    filter := handler.filter, queryFilter := handler.queryFilter }

def listTools : PageLister Tool :=
  handler.lists.listTools fun tool => (Sanitize.sanitizeOne toJson tool).1

def getTool (name : String) : Option Tool := handler.inner.getTool name

def invalidRequest (message : String) : McpError := ⟨-32600, message⟩

/-- What the validator or the query filter answers instead of the tool. -/
def refusal (request : CallToolRequest) (context : Ctx) : Option McpError :=
  let decision :=
    match handler.accessValidator with
    | some validate => validate request.name request.arguments context
    | none => .allow
  match decision with
  | .deny reason =>
    some (invalidRequest ("Access denied for tool '" ++ request.name ++ "': " ++ reason))
  | .allow =>
    if handler.queryFilter.contains request.name then
      some (invalidRequest ("Tool '" ++ request.name ++ "' is not available"))
    else none

/-- The registry first, the inner handler for what it does not know. -/
def dispatch (request : CallToolRequest) (context : Ctx) :
    Except McpError CallToolResponse × ToolCallSource :=
  let regResult :=
    if handler.registry.containsTool request.name then
      handler.registry.tryCallTool request.name request.arguments (some context)
    else none
  match regResult with
  | some regResult => (regResult.map .complete, .registry)
  | none => (handler.inner.callTool request context, .inner)

/-- The answer, and the source of the audit record. -/
def callTool (request : CallToolRequest) (context : Ctx) :
    Except McpError CallToolResponse × Option ToolCallSource :=
  match handler.refusal request context with
  | some error => (.error error, none)
  | none =>
    let (result, source) := handler.dispatch request context
    (result, some source)

end ToolHandler

/-! ## The sources -/

namespace ToolHandler

variable (toJson : Json → String) (handler : ToolHandler Ctx)

/-- The registry if it defines the name, otherwise the inner handler. -/
def source (name : String) : ToolCallSource :=
  if handler.registry.containsTool name then .registry else .inner

/-- What a source has under a name for a page of the inner handler's. -/
def listedBy (name : String) (page : List Tool) : ToolCallSource → List Tool
  | .registry => ((handler.registry.tools.get? name).map (·.1)).toList
  | .inner => page.filter fun t => decide (t.name = name)

/-- The definition a source has of a name. -/
def definedBy (name : String) : ToolCallSource → Option Tool
  | .registry => (handler.registry.tools.get? name).map (·.1)
  | .inner => handler.inner.getTool name

/-- The handler a source has for a name. -/
def runBy (name : String) :
    ToolCallSource → Option (Option JsonObject → Ctx → Except McpError CallToolResponse)
  | .registry => (handler.registry.tools.get? name).map fun entry args context =>
    (entry.2 args (some context)).map .complete
  | .inner => handler.inner.runs name

/-- The three paths take a name to the same source, and none of them knows it
exactly when no source does. -/
structure ResolvesAlike (name : String) : Prop where
  listed : ∀ request page, handler.inner.listTools request = .ok page →
    ∃ listed, handler.listTools toJson request = .ok listed ∧
      (listed.items.filter fun t => decide (t.name = name)) =
        (handler.listedBy name page.items (handler.source name)).map fun tool =>
          (Sanitize.sanitizeOne toJson tool).1
  defined : handler.getTool name = handler.definedBy name (handler.source name)
  called : ∀ arguments context, handler.refusal ⟨name, arguments⟩ context = none →
    handler.callTool ⟨name, arguments⟩ context =
      (match handler.runBy name (handler.source name) with
        | some run => run arguments context
        | none => handler.inner.notFound ⟨name, arguments⟩ context, some (handler.source name))
  unlisted : ∀ request page listed, handler.inner.listTools request = .ok page →
    handler.listTools toJson request = .ok listed →
      ((∀ t ∈ listed.items, t.name ≠ name) ↔ ∀ s, handler.listedBy name page.items s = [])
  undefined : handler.getTool name = none ↔ ∀ s, handler.definedBy name s = none
  uncalled : handler.runBy name (handler.source name) = none ↔ ∀ s, handler.runBy name s = none

/-! ## Each path -/

/-- The merge has the registry's tools under a name, or else the inner ones. -/
theorem filter_merged (inner registry : List Tool) (name : String) :
    ((mergeRegistryItems inner registry fun a b => a.name == b.name).filter
        fun t => decide (t.name = name)) =
      if ∃ t ∈ registry, t.name = name then registry.filter fun t => decide (t.name = name)
      else inner.filter fun t => decide (t.name = name) := by
  rw [mergeRegistryItems_eq, List.filter_append, unshadowed, List.filter_filter]
  split
  · obtain ⟨t, hmem, rfl⟩ := ‹∃ t ∈ registry, t.name = name›
    have hshadowed : (inner.filter fun item => decide (item.name = t.name) &&
        registry.all fun ri => !(item.name == ri.name)) = [] := by
      rw [List.filter_eq_nil_iff]
      intro item _ h
      obtain ⟨hname, hall⟩ := Bool.and_eq_true_iff.mp h
      have hne := List.all_eq_true.mp hall t hmem
      simp [of_decide_eq_true hname] at hne
    rw [hshadowed, List.nil_append]
  · rename_i hnone
    have hreg : (registry.filter fun t => decide (t.name = name)) = [] :=
      List.filter_eq_nil_iff.mpr fun t hmem h => hnone ⟨t, hmem, of_decide_eq_true h⟩
    rw [hreg, List.append_nil]
    refine List.filter_congr fun item _ => ?_
    by_cases hname : item.name = name
    · subst hname
      have hall : (registry.all fun ri => !(item.name == ri.name)) = true :=
        List.all_eq_true.mpr fun ri hmem => by
          have hri : ¬ item.name = ri.name := fun h => hnone ⟨ri, hmem, h.symm⟩
          simp [hri]
      rw [hall, Bool.and_true]
    · simp [hname]

@[simp] theorem sanitizeOne_name (tool : Tool) :
    (Sanitize.sanitizeOne toJson tool).1.name = tool.name := by
  unfold Sanitize.sanitizeOne
  split <;> rfl

variable {handler}

theorem listTools_ok (hfilter : handler.filter = none) (hquery : handler.queryFilter = [])
    {request : Option String} {page : Page String Tool}
    (h : handler.inner.listTools request = .ok page) :
    handler.listTools toJson request =
      .ok ⟨(mergeRegistryItems page.items handler.registry.capabilities.tools.values
        fun a b => a.name == b.name).map fun tool => (Sanitize.sanitizeOne toJson tool).1,
        page.nextCursor⟩ := by
  simp [listTools, DynamicHandler.listTools, lists, h, hfilter, hquery, Except.map]

/-- What is listed under a name comes from its source. -/
theorem filter_listed (page : List Tool) (name : String) :
    (((mergeRegistryItems page handler.registry.capabilities.tools.values
        fun a b => a.name == b.name).map fun tool => (Sanitize.sanitizeOne toJson tool).1).filter
        fun t => decide (t.name = name)) =
      (handler.listedBy name page (handler.source name)).map fun tool =>
        (Sanitize.sanitizeOne toJson tool).1 := by
  rw [List.filter_map]
  refine congrArg _ ?_
  have hcomp : ((fun t : Tool => decide (t.name = name)) ∘ fun tool =>
      (Sanitize.sanitizeOne toJson tool).1) = fun t => decide (t.name = name) := by
    funext t
    simp
  rw [hcomp, filter_merged, handler.registry.listed_of_name, source]
  simp only [handler.registry.mem_listed_iff]
  split <;> rfl

/-- The inner handler is asked where the registry knows nothing. -/
theorem unknown_iff (unknown : ToolCallSource → Prop) {name : String}
    (hregistry : unknown .registry ↔ handler.registry.tools.get? name = none) :
    unknown (handler.source name) ↔ ∀ s, unknown s := by
  constructor
  · intro h s
    rw [source, ToolRegistry.containsTool, HashMap.containsKey] at h
    cases hentry : handler.registry.tools.get? name with
    | some entry =>
      rw [hentry] at h
      exact absurd ((hregistry.mp h).symm.trans hentry) (by simp)
    | none =>
      rw [hentry] at h
      cases s with
      | registry => exact hregistry.mpr hentry
      | inner => exact h
  · intro h
    exact h _

theorem callTool_eq {request : CallToolRequest} {context : Ctx}
    (h : handler.refusal request context = none) :
    handler.callTool request context =
      (match handler.runBy request.name (handler.source request.name) with
        | some run => run request.arguments context
        | none => handler.inner.notFound request context, some (handler.source request.name)) := by
  rw [callTool, h, dispatch, source, ToolRegistry.containsTool, HashMap.containsKey]
  cases hentry : handler.registry.tools.get? request.name with
  | some entry => simp [ToolRegistry.tryCallTool, runBy, hentry]
  | none =>
    simp only [Option.isSome_none, Bool.false_eq_true, if_false, InnerHandler.callTool, runBy]

/-- `get_tool` asks the inner handler: right where the registry defines nothing,
or the inner handler has its very definition. -/
theorem getTool_eq_iff (name : String) :
    handler.getTool name = handler.definedBy name (handler.source name) ↔
      ∀ entry, handler.registry.tools.get? name = some entry →
        handler.inner.getTool name = some entry.1 := by
  rw [getTool, source, ToolRegistry.containsTool, HashMap.containsKey]
  cases hentry : handler.registry.tools.get? name with
  | some entry =>
    rw [Option.isSome_some, if_pos rfl, definedBy, hentry]
    constructor
    · rintro h _ ⟨⟩
      exact h
    · intro h
      exact h entry rfl
  | none => simp [definedBy]

/-- **Where the three paths agree.** Without a filter a name stands for one
source, in the list, in the lookup and in a call, if and only if the registry
does not define it or the inner handler has the same definition. -/
theorem resolves_alike_iff (toJson : Json → String) (handler : ToolHandler Ctx)
    (hfilter : handler.filter = none) (hquery : handler.queryFilter = []) (name : String) :
    handler.ResolvesAlike toJson name ↔
      ∀ entry, handler.registry.tools.get? name = some entry →
        handler.inner.getTool name = some entry.1 := by
  rw [← getTool_eq_iff]
  constructor
  · intro h
    exact h.defined
  · intro hdefined
    refine
      { listed := fun request page h =>
          ⟨_, listTools_ok toJson hfilter hquery h, filter_listed toJson page.items name⟩
        defined := hdefined
        called := fun arguments context h => callTool_eq h
        unlisted := fun request page listed h hlisted => ?_
        undefined := ?_
        uncalled := unknown_iff (fun s => handler.runBy name s = none) (by simp [runBy]) }
    · rw [listTools_ok toJson hfilter hquery h] at hlisted
      cases hlisted
      have hlisted := @filter_listed Ctx toJson handler page.items name
      have hunknown : handler.listedBy name page.items (handler.source name) = [] ↔
          ∀ s, handler.listedBy name page.items s = [] :=
        unknown_iff (fun s => handler.listedBy name page.items s = []) (by simp [listedBy])
      rw [← hunknown, ← List.map_eq_nil_iff, ← hlisted, List.filter_eq_nil_iff]
      simp
    · rw [hdefined]
      exact unknown_iff (fun s => handler.definedBy name s = none) (by simp [definedBy])

end ToolHandler

/-! ## A registered tool -/

/-- An inner handler without tools. -/
def noTools : InnerHandler Unit :=
  { listTools := nothing, listPrompts := nothing, listResources := nothing
    getTool := fun _ => none
    runs := fun _ => none
    notFound := fun request _ => .error ⟨-32602, "tool not found: " ++ request.name⟩ }

/-- Tool x, which answers null, is registered beside an inner handler. -/
def xRegistered (inner : InnerHandler Unit) : ToolHandler Unit :=
  { inner := inner
    registry :=
      (⟨HashMap.empty, HashMap.empty, HashMap.empty, 0, by simp⟩ : ToolRegistry Unit).addTool
        (toolNamed "x") fun _ _ => .ok .null
    filter := none
    queryFilter := []
    accessValidator := none }

/-- The inner handler defines tool x as the registry does. -/
theorem alike_when_defined_alike :
    (xRegistered { noTools with getTool := fun _ => some (toolNamed "x") }).ResolvesAlike
      (fun _ => "") "x" :=
  (ToolHandler.resolves_alike_iff (fun _ => "") _ rfl rfl "x").mpr fun entry h => by
    have hentry : (xRegistered { noTools with
        getTool := fun _ => some (toolNamed "x") }).registry.tools.get? "x" =
          some (toolNamed "x", fun _ _ => .ok .null) := HashMap.get?_insert_self ..
    rw [hentry] at h
    cases h
    rfl

/-- Tool x is listed and runs, and `get_tool` does not know it. -/
theorem registered_tool_not_found :
    ¬ ∀ handler : ToolHandler Unit, handler.filter = none → handler.queryFilter = [] →
      ∀ name, handler.ResolvesAlike (fun _ => "") name := by
  intro h
  have hdefined := (h (xRegistered noTools) rfl rfl "x").defined
  exact absurd (congrArg Option.isSome hdefined) (by decide)

end McpFramework
