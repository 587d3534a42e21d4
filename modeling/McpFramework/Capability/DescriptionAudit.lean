import McpFramework.Capability.SchemaMeaning
import McpFramework.Lib.Once

/-!
# Capability — DescriptionAudit

What is left undocumented, and how often that is said (`capability/sanitize.rs`). A
tool is audited when it is registered and each time it is listed, always as it will be
shown: a title that becomes a description counts as one. A version of a tool is audited
once. The set of versions is let go of before anything is logged, so the warning may
come while others already pass the version by.
-/

namespace McpFramework.Sanitize

open Lib BTreeMap Json

/-! ## Findings -/

/-- The parameters that carry no description. -/
def undocumented (props : JsonObject) : List String :=
  (props.filter fun e => (nonblankDescription e.2).isNone).map (·.1)

def toolFindings (tool : Tool) : List String :=
  if (nonblankDescription tool.rest).isSome then [] else ["the tool itself has no description"]

def parameterFindings (names : List String) : List String :=
  if names.isEmpty then [] else ["parameters without a description: " ++ ", ".intercalate names]

/-- Every documentation deficit of a tool. -/
def auditDescriptions (tool : Tool) : List String :=
  toolFindings tool ++
    match tool.inputSchema.get "properties" with
    | some (.obj props) => parameterFindings (undocumented props)
    | _ => []

/-- What a schema says of itself, in a description or in a title. -/
def ownDocumentation (node : Json) : Option String :=
  (nonblankDescription node).or (nonblank (node.get "title"))

/-- What there is to say of a parameter: where it is a reference, its own description (a
blank one too) or title comes before what the definition says. -/
def documentation (defs : JsonObject) (node : Json) : Option String :=
  match node with
  | .obj map =>
    match refTarget defs map with
    | some (_, definition) =>
      if (get map "description").isSome ∨ (nonblank (get map "title")).isSome then
        ownDocumentation node
      else ownDocumentation definition
    | none => ownDocumentation node
  | node => ownDocumentation node

/-- A parameter without references, or one reference to an object without any, beside
nothing but remarks. -/
inductive Direct (defs : JsonObject) : Json → Prop where
  | plain {node : Json} : NoReference defs node → Direct defs node
  | reference {map definition : JsonObject} {name : String} :
      refTarget defs map = some (name, .obj definition) → NoReference defs (.obj definition) →
      OnlyRemarks defs map → Direct defs (.obj map)

section Findings

variable (toJson : Json → String)

/-- A title takes the place of a description that says nothing. -/
theorem nonblank_foldTitleIntoDescription (map : JsonObject) :
    nonblank (get (foldTitleIntoDescription map) "description") =
      (nonblank (get map "description")).or (nonblank (get map "title")) := by
  have hkeep : get (remove map "title") "description" = get map "description" :=
    get_remove_of_ne map (by decide)
  unfold foldTitleIntoDescription
  cases htitle : get map "title" with
  | none => rw [show nonblank none = none from rfl, Option.or_none]
  | some title =>
    cases title with
    | str titleStr =>
      dsimp only
      split_ifs with hblank hnone
      · have hsays : nonblank (some (.str titleStr)) = none := by
          simp [nonblank, Json.asStr, hblank]
        rw [hkeep, hsays, Option.or_none]
      · rw [hkeep] at hnone
        rw [get_insert_self, hnone, Option.none_or]
      · rw [hkeep] at hnone
        obtain ⟨s, hs⟩ := Option.ne_none_iff_exists'.mp hnone
        rw [hkeep, hs, Option.some_or]
    | _ => exact (congrArg nonblank hkeep).trans (Option.or_none).symm

/-- Stripping makes no string of anything else. -/
theorem nonblank_sanitizeKeyword {k : String} (hk : k = "description") (value : Option Json) :
    nonblank (value.map (sanitizeKeyword k)) = nonblank value := by
  subst hk
  cases value with
  | none => rfl
  | some v =>
    rw [Option.map_some, sanitizeKeyword_of_plain (by decide) (by decide)]
    cases v with
    | bool b => cases b <;> rfl
    | _ => rfl

theorem nonblankDescription_sanitize (node : Json) :
    nonblankDescription (sanitizeValueRecursive node) = ownDocumentation node := by
  cases node with
  | obj map =>
    have hschema : ∀ k ∈ ["description", "title"], get (remove map "$schema") k = get map k :=
      fun k hk => get_remove_of_ne map (by rintro rfl; revert hk; decide)
    rw [sanitizeValueRecursive_obj, nonblankDescription, Json.get_obj, sanitizeSchemaNode,
      get_mapValues, nonblank_sanitizeKeyword rfl, nonblank_foldTitleIntoDescription,
      hschema _ (by decide), hschema _ (by decide)]
    rfl
  | bool b => cases b <;> rfl
  | _ => rfl

/-- A node has a description after stripping if it had one, or a title to make one of. -/
theorem isSome_description_sanitize (map : JsonObject) :
    (get (sanitizeSchemaNode map) "description").isSome = true ↔
      (get map "description").isSome ∨ (nonblank (get map "title")).isSome := by
  have hfold : ∀ map : JsonObject,
      (get (foldTitleIntoDescription map) "description").isSome = true ↔
        (get map "description").isSome ∨ (nonblank (get map "title")).isSome := fun map => by
    have hkeep : get (remove map "title") "description" = get map "description" :=
      get_remove_of_ne map (by decide)
    unfold foldTitleIntoDescription
    cases htitle : get map "title" with
    | none => simp [nonblank]
    | some title =>
      cases title with
      | str titleStr =>
        dsimp only
        split_ifs with hblank hnone
        · simp [hkeep, nonblank, Json.asStr, hblank]
        · simp [get_insert_self, nonblank, Json.asStr, hblank]
        · rw [hkeep] at hnone
          have hsome : (get map "description").isSome = true := by
            cases hdescription : get map "description" with
            | none => exact absurd (by rw [hdescription]; rfl) hnone
            | some _ => rfl
          simp [hkeep, hsome]
      | _ => simp [hkeep, nonblank, Json.asStr]
  have hschema : ∀ k ∈ ["description", "title"], get (remove map "$schema") k = get map k :=
    fun k hk => get_remove_of_ne map (by rintro rfl; revert hk; decide)
  rw [sanitizeSchemaNode, get_mapValues, Option.isSome_map, hfold, hschema _ (by decide),
    hschema _ (by decide)]

variable {defs : JsonObject}

/-- What is shown of a parameter is what there is to say of it. -/
theorem nonblankDescription_shown {node : Json} (hwf : WellFormed node) (h : Direct defs node) :
    nonblankDescription (resolveRefsInner (cleanDefs defs) [] (sanitizeValueRecursive node)) =
      documentation defs node := by
  cases h with
  | plain h =>
    rw [resolve_of_noReference [] ((noReference_cleanDefs _ _).mpr (noReference_sanitize h)),
      nonblankDescription_sanitize]
    cases node with
    | obj map =>
      have hnone : refTarget defs map = none := h.node
      rw [documentation, hnone]
    | _ => rfl
  | @reference map definition name htarget hdef hremarks =>
    have htarget' := refTarget_sanitizeSchemaNode htarget
    rw [sanitizeValueRecursive_obj] at htarget'
    have hclean : NoReference (cleanDefs defs) (.obj (sanitizeSchemaNode definition)) := by
      rw [← sanitizeValueRecursive_obj]
      exact (noReference_cleanDefs _ _).mpr (noReference_sanitize hdef)
    -- The definition with the remarks over it refers to nothing more.
    have hmerged : NoReference (cleanDefs defs)
        (.obj (mergeSiblings (sanitizeSchemaNode definition) (sanitizeSchemaNode map))) := by
      refine .obj ((refTarget_mergeSiblings _ _ _).trans hclean.node) fun k v hv => ?_
      rcases mem_mergeSiblings_remark hremarks.sanitize k v hv with hin | ⟨-, hnone⟩
      · exact hclean.field hin
      · exact hnone
    have hshown : nonblankDescription (.obj (sanitizeSchemaNode map)) =
        ownDocumentation (.obj map) := by
      rw [← sanitizeValueRecursive_obj, nonblankDescription_sanitize]
    have hdefinition : nonblankDescription (.obj (sanitizeSchemaNode definition)) =
        ownDocumentation (.obj definition) := by
      rw [← sanitizeValueRecursive_obj, nonblankDescription_sanitize]
    rw [sanitizeValueRecursive_obj, resolveRefsInner_inlined htarget' List.not_mem_nil (by decide),
      inlineReference, resolve_of_noReference _ hmerged, nonblankDescription, Json.get_obj,
      get_merged_other (sorted_sanitizeSchemaNode hwf.node)
        (show "description" ∉ ["$ref", "properties", "required"] by decide),
      documentation, htarget]
    dsimp only
    split_ifs with hsays
    · obtain ⟨v, hv⟩ :=
        Option.isSome_iff_exists.mp ((isSome_description_sanitize map).mpr hsays)
      rw [hv, Option.some_or, ← hv]
      exact hshown
    · have hsilent := mt (isSome_description_sanitize map).mp hsays
      rw [Option.not_isSome_iff_eq_none.mp hsilent, Option.none_or]
      exact hdefinition

/-- The properties of a schema that has no combinator at its root, as they are shown. -/
theorem properties_shown {schema props : JsonObject} (hroot : rootCombinator schema = none)
    (hprops : get schema "properties" = some (.obj props))
    (hnames : refTarget (defsOf schema) props = none) :
    get (sanitizeInputSchema toJson schema).1 "properties" =
      some (.obj (mapValues (fun _ s =>
        resolveRefsInner (cleanDefs (defsOf schema)) [] (sanitizeValueRecursive s)) props)) := by
  have hrewritten : get (rewriteSchema toJson schema) "properties" =
      some (.obj (mapValues (fun _ s =>
        resolveRefsInner (cleanDefs (defsOf schema)) [] (sanitizeValueRecursive s)) props)) := by
    obtain ⟨hclean, hmap⟩ :=
      get_clean_named schema (show "properties" ∈ NAMED_SUBSCHEMA_CONTAINERS by decide)
    have hnone : rootCombinator (inlineDefs (stripMetaFields schema)) = none :=
      (rootCombinator_inlined schema).trans hroot
    have hplain : refTarget (cleanDefs (defsOf schema))
        (mapValues (fun _ s => sanitizeValueRecursive s) props) = none := by
      rw [refTarget_cleanDefs, refTarget_refName, refName_named, ← refTarget_refName]
      exact hnames
    rw [rewriteSchema, flattenTopLevelCombinator, hnone]
    dsimp only
    rw [get_inlineDefs_strip schema (by decide), hclean, hprops, Option.map_some, hmap,
      Option.map_some, resolveRefsInner_plain hplain, mapValues_mapValues]
  -- There are properties, so none are patched in.
  unfold sanitizeInputSchema
  dsimp only
  split_ifs with htype hdeclared
  · exact hrewritten
  · rw [get_insert_of_ne _ _ (by decide)]
    exact hrewritten
  · rw [containsKey, get_insert_of_ne _ _ (by decide), hrewritten] at hdeclared
    exact absurd rfl hdeclared

end Findings

/-! ## Versions -/

/-- What makes a version of a tool: all that is documented. -/
def documented (tool : Tool) : String × Option String × Json :=
  (tool.name, (tool.rest.get "description").bind Json.asStr, tool.inputSchema)

/-- `hasher` is what hashing a name, a description and a written schema gives. -/
def toolVersionKey (hasher : String × Option String × String → Nat) (toJson : Json → String)
    (tool : Tool) : Nat :=
  hasher (tool.name, (tool.rest.get "description").bind Json.asStr, toJson tool.inputSchema)

structure Warning where
  tool : String
  findings : String

/-- A single warning for each tool, if there is anything to report. -/
def warningOf (tool : Tool) : Option Warning :=
  let findings := auditDescriptions tool
  if findings.isEmpty then none else some ⟨tool.name, "; ".intercalate findings⟩

theorem warningOf_congr {tool tool' : Tool} (h : documented tool = documented tool') :
    warningOf tool = warningOf tool' := by
  simp only [documented, Prod.mk.injEq] at h
  obtain ⟨hname, hdescription, hschema⟩ := h
  have hrest : toolFindings tool = toolFindings tool' := by
    rw [toolFindings, nonblankDescription, nonblank, hdescription]
    rfl
  have hfindings : auditDescriptions tool = auditDescriptions tool' := by
    rw [auditDescriptions, hrest, hschema, auditDescriptions]
  rw [warningOf, hname, hfindings, warningOf]

/-! ## Runs -/

namespace DescriptionAudit

/-- `shown` are the tools that were registered or listed, as they came. -/
structure State where
  audit : Once.State Tool Nat
  shown : List Tool

/-- Tasks register a tool, list the tools of a page, and get on with what they do. -/
inductive Label where
  | register (task : Nat) (tool : Tool)
  | list (task : Nat) (tools : List Tool)
  | run (task : Nat)

def init : State := ⟨Once.init Tool Nat, []⟩

variable (hasher : String × Option String × String → Nat) (toJson : Json → String)

/-- A tool as it is shown. -/
def sanitized (tool : Tool) : Tool := (sanitizeOne toJson tool).1

def present (s : State) (task : Nat) (tools : List Tool) : Option State :=
  (Once.step (toolVersionKey hasher toJson) s.audit
    (.hand task (tools.map (sanitized toJson)))).map fun audit => ⟨audit, tools ++ s.shown⟩

/-- Registering audits a sanitized copy, listing what it sends. -/
def step (s : State) : Label → Option State
  | .register task tool => present hasher toJson s task [tool]
  | .list task tools => present hasher toJson s task tools
  | .run task =>
    (Once.step (toolVersionKey hasher toJson) s.audit (.run task)).map fun audit =>
      { s with audit := audit }

def system : System State Label := ⟨step hasher toJson⟩

/-- What was logged, the last warning first. -/
def State.log (s : State) : List Warning := s.audit.acted.filterMap warningOf

def State.Quiet (s : State) : Prop := ∀ task, s.audit.pc task = .idle

variable {hasher toJson} {G : State → Label → Prop} {s : State}

theorem handed_of_hand {a a' : Once.State Tool Nat} {task : Nat} {items : List Tool}
    (h : Once.step (toolVersionKey hasher toJson) a (.hand task items) = some a') :
    a'.handed = items ++ a.handed := by
  rw [Once.step] at h
  split at h
  · cases h
    rfl
  · cases h

theorem handed_of_run {a a' : Once.State Tool Nat} {task : Nat}
    (h : Once.step (toolVersionKey hasher toJson) a (.run task) = some a') :
    a'.handed = a.handed := by
  rw [Once.step] at h
  split at h
  · cases h
  · cases h
    rfl
  · split at h <;> cases h <;> rfl
  · cases h
    rfl

/-- Tools are audited as workers act on items, each tool as it is shown. -/
def Audited (hasher : String × Option String × String → Nat) (toJson : Json → String)
    (s : State) : Prop :=
  (Once.system (toolVersionKey hasher toJson)).Reach (fun _ _ => True) (Once.init Tool Nat)
      s.audit ∧
    s.audit.handed = s.shown.map (sanitized toJson)

theorem Audited.present {t : State} {task : Nat} {tools : List Tool}
    (h : Audited hasher toJson s) (hs : present hasher toJson s task tools = some t) :
    Audited hasher toJson t := by
  obtain ⟨audit, haudit, rfl⟩ := Option.map_eq_some_iff.mp hs
  refine ⟨.step (l := .hand task (tools.map (sanitized toJson))) h.1 trivial haudit, ?_⟩
  rw [handed_of_hand haudit, h.2, List.map_append]

theorem audited_reach (hr : (system hasher toJson).Reach G init s) : Audited hasher toJson s := by
  refine hr.invariant ⟨.refl, rfl⟩ fun s l t h _ hs => ?_
  cases l with
  | register task tool => exact h.present hs
  | list task tools => exact h.present hs
  | run task =>
    obtain ⟨audit, haudit, rfl⟩ := Option.map_eq_some_iff.mp hs
    exact ⟨.step (l := .run task) h.1 trivial haudit, (handed_of_run haudit).trans h.2⟩

/-- **A deficit is reported once.** Whatever tasks register and list, in any order, the
warnings are those of tools that were shown, no two of them of one version; and once no
audit is under way, every tool that was shown has had its say, if the hash keeps the
versions of what was shown apart. -/
theorem deficits_are_reported_once (hr : (system hasher toJson).Reach G init s) :
    (∃ told : List Tool, (told.map documented).Nodup ∧ s.log = told.filterMap warningOf ∧
        ∀ tool ∈ told, ∃ tool' ∈ s.shown, tool = sanitized toJson tool') ∧
      ((∀ tool ∈ s.shown, ∀ tool' ∈ s.shown,
          toolVersionKey hasher toJson (sanitized toJson tool) =
              toolVersionKey hasher toJson (sanitized toJson tool') →
            documented (sanitized toJson tool) = documented (sanitized toJson tool')) →
        s.Quiet → ∀ tool ∈ s.shown, ∀ w, warningOf (sanitized toJson tool) = some w →
          w ∈ s.log) := by
  obtain ⟨hreach, hhanded⟩ := audited_reach hr
  obtain ⟨hnodup, hacted, hmet⟩ := Once.acted_once hreach
  have hshown : ∀ tool ∈ s.audit.acted, ∃ tool' ∈ s.shown, tool = sanitized toJson tool' := by
    intro tool htool
    have hin := hacted tool htool
    rw [hhanded] at hin
    obtain ⟨tool', htool', rfl⟩ := List.mem_map.mp hin
    exact ⟨tool', htool', rfl⟩
  refine ⟨⟨s.audit.acted, ?_, rfl, hshown⟩, fun hhash hquiet tool htool w hw => ?_⟩
  · -- Tools documented alike have one key.
    refine List.Nodup.of_map (fun d => hasher (d.1, d.2.1, toJson d.2.2)) ?_
    rw [List.map_map]
    exact hnodup
  · have hin : sanitized toJson tool ∈ s.audit.handed := by
      rw [hhanded]
      exact List.mem_map_of_mem htool
    rcases hmet _ hin with htold | ⟨task, item, rest, hpc, -⟩ | ⟨task, hahead⟩
    · obtain ⟨look, hlook, hkey⟩ := List.mem_map.mp htold
      obtain ⟨tool', htool', rfl⟩ := hshown look hlook
      refine List.mem_filterMap.mpr ⟨_, hlook, ?_⟩
      rw [warningOf_congr (hhash tool' htool' tool htool hkey), hw]
    · rw [hquiet task] at hpc
      cases hpc
    · rw [hquiet task] at hahead
      cases hahead

/-- Of the parameters of a place, `at` has a title, `by` says nothing and `who` refers to
a definition that does. -/
def placeProperties : JsonObject :=
  [("at", .obj [("title", .str "Where")]), ("by", .obj []),
    ("who", .obj [("$ref", .str "#/$defs/Mover")])]

def placeInput : JsonObject :=
  [("$defs", .obj [("Mover", .obj [("description", .str "Who moves it")])]),
    ("properties", .obj placeProperties)]

def placeTool : Tool :=
  ⟨"place", .obj placeInput, none, .obj [("description", .str "Puts it there")]⟩

def exampleSystem : System State Label := system (fun d => d.1.length) fun _ => ""

/-- Another task lists the tool before it was warned of. -/
def registeredAndListed : Option State :=
  exampleSystem.run (fun _ _ => True) init
    [.register 0 placeTool, .run 0, .list 1 [placeTool], .run 1, .run 1, .run 0, .run 0]

theorem listed_tool_is_not_reported_again :
    ∃ s, exampleSystem.Reach (fun _ _ => True) init s ∧ s.shown = [placeTool, placeTool] ∧
      ∃ w, warningOf (sanitized (fun _ => "") placeTool) = some w ∧ s.log = [w] ∧ w ∈ s.log := by
  have hrun : registeredAndListed.isSome = true := by decide
  have hr := System.reach_get hrun
  have hquiet : (registeredAndListed.get hrun).Quiet := fun task => by
    rcases task with _ | _ | task
    · rfl
    · rfl
    · rfl
  have hone : ∀ tool ∈ [placeTool, placeTool], tool = placeTool := by simp
  have hreported := (deficits_are_reported_once hr).2
    (fun tool htool tool' htool' _ => by rw [hone tool htool, hone tool' htool']) hquiet
  exact ⟨_, hr, rfl, _, rfl, rfl, hreported placeTool List.mem_cons_self _ rfl⟩

end DescriptionAudit

/-! ## What is reported of a tool -/

/-- **What a tool is warned of**, in terms of the schema it came with: where no
combinator stands at the root, exactly the parameters of which nothing is said, by
themselves or by the definition they refer to. -/
theorem audit_names_the_undocumented (toJson : Json → String) (tool : Tool)
    {schema props : JsonObject} (hroot : rootCombinator schema = none)
    (hprops : get schema "properties" = some (.obj props)) (hwf : WellFormed (.obj props))
    (hnames : refTarget (defsOf schema) props = none)
    (hdirect : ∀ name node, (name, node) ∈ props → Direct (defsOf schema) node) :
    auditDescriptions (sanitizeOne toJson { tool with inputSchema := .obj schema }).1 =
      toolFindings tool ++
        parameterFindings
          ((props.filter fun e => (documentation (defsOf schema) e.2).isNone).map (·.1)) := by
  have hundocumented : undocumented (mapValues (fun _ s =>
      resolveRefsInner (cleanDefs (defsOf schema)) [] (sanitizeValueRecursive s)) props) =
        (props.filter fun e => (documentation (defsOf schema) e.2).isNone).map (·.1) := by
    unfold undocumented mapValues
    rw [List.filter_map, List.map_map]
    refine congrArg _ (List.filter_congr fun e he => ?_)
    rw [Function.comp_apply, nonblankDescription_shown (hwf.field he) (hdirect e.1 e.2 he)]
  have hshown := properties_shown toJson hroot hprops hnames
  rw [← hundocumented, auditDescriptions, sanitizeOne]
  dsimp only
  rw [Json.get_obj, hshown]
  rfl

/-- A title speaks for its parameter, and so does the definition it refers to. -/
theorem referring_parameters_are_documented :
    auditDescriptions (sanitizeOne (fun _ => "") DescriptionAudit.placeTool).1 =
      parameterFindings ["by"] := by
  have hdirect : ∀ name node, (name, node) ∈ DescriptionAudit.placeProperties →
      Direct (defsOf DescriptionAudit.placeInput) node := fun name node h => by
    simp only [DescriptionAudit.placeProperties, List.mem_cons, List.not_mem_nil, or_false,
      Prod.mk.injEq] at h
    rcases h with ⟨-, rfl⟩ | ⟨-, rfl⟩ | ⟨-, rfl⟩
    · exact .plain (by decide)
    · exact .plain (by decide)
    · refine .reference (show refTarget _ _ = some ("Mover", .obj _) from rfl) (by decide) ?_
      intro k v hv
      obtain ⟨rfl, rfl⟩ : k = "$ref" ∧ v = .str "#/$defs/Mover" := by simpa using hv
      exact .inl ⟨rfl, _, rfl⟩
  exact audit_names_the_undocumented (fun _ => "") DescriptionAudit.placeTool
    (show rootCombinator DescriptionAudit.placeInput = none from rfl) rfl (by decide) rfl hdirect

end McpFramework.Sanitize
