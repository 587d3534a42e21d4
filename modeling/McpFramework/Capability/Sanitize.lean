import McpFramework.Core.JsonObject
import McpFramework.Core.Text
import McpFramework.Capability.Registry

/-!
# Capability — Sanitize

The rewriting of tool schemas before they are listed (`capability/sanitize.rs`):
meta fields are stripped, `$defs` are inlined, a combinator at the root is
flattened and a missing `type` is patched.

How a value that is not a string is written as JSON is a parameter.
-/

namespace McpFramework.Sanitize

open Lib BTreeMap

/-- A string value that is there and is not blank. -/
def nonblank (value : Option Json) : Option String :=
  (value.bind Json.asStr).filter fun s => trim s != ""

def nonblankDescription (node : Json) : Option String := nonblank (node.get "description")

/-! ## Meta fields -/

/-- Keywords whose value maps names the author chose to subschemas. -/
def NAMED_SUBSCHEMA_CONTAINERS : List String :=
  ["properties", "patternProperties", "$defs", "definitions", "dependentSchemas"]

/-- Keywords whose value is plain data. -/
def DATA_KEYWORDS : List String := ["enum", "const", "default", "examples"]

def foldTitleIntoDescription (map : JsonObject) : JsonObject :=
  match get map "title" with
  | none => map
  | some (.str titleStr) =>
    let map := remove map "title"
    if trim titleStr = "" then map
    else if nonblank (get map "description") = none then insert map "description" (.str titleStr)
    else map
  | some _ => remove map "title"

mutual

/-- A value in schema position. What happens to the fields of an object is in
`sanitizeSchemaNode`, in the order of the source: here they are cleaned before
the meta fields go, which is the same (`sanitizeValueRecursive_obj`). -/
def sanitizeValueRecursive : Json → Json
  | .bool true => .obj []
  | .obj map => .obj (foldTitleIntoDescription (remove (sanitizeFields map) "$schema"))
  | .arr items => .arr (sanitizeItems items)
  | value => value

def sanitizeFields : List (String × Json) → List (String × Json)
  | [] => []
  | (key, v) :: rest =>
    (key,
      if DATA_KEYWORDS.contains key then v
      else if NAMED_SUBSCHEMA_CONTAINERS.contains key then
        match v with
        | .obj named => .obj (sanitizeNamed named)
        | v => v
      else sanitizeValueRecursive v) :: sanitizeFields rest

def sanitizeNamed : List (String × Json) → List (String × Json)
  | [] => []
  | (name, subschema) :: rest => (name, sanitizeValueRecursive subschema) :: sanitizeNamed rest

def sanitizeItems : List Json → List Json
  | [] => []
  | v :: rest => sanitizeValueRecursive v :: sanitizeItems rest

end

/-- What becomes of the value of one keyword of a schema node. -/
def sanitizeKeyword (key : String) (v : Json) : Json :=
  if DATA_KEYWORDS.contains key then v
  else if NAMED_SUBSCHEMA_CONTAINERS.contains key then
    match v with
    | .obj named => .obj (mapValues (fun _ subschema => sanitizeValueRecursive subschema) named)
    | v => v
  else sanitizeValueRecursive v

def sanitizeSchemaNode (map : JsonObject) : JsonObject :=
  mapValues sanitizeKeyword (foldTitleIntoDescription (remove map "$schema"))

def stripMetaFields (schema : JsonObject) : JsonObject := sanitizeSchemaNode schema

theorem sanitizeNamed_eq (named : JsonObject) :
    sanitizeNamed named =
      mapValues (fun _ subschema => sanitizeValueRecursive subschema) named := by
  induction named with
  | nil => rfl
  | cons e named ih =>
    obtain ⟨name, subschema⟩ := e
    rw [sanitizeNamed, ih, mapValues_cons]

theorem sanitizeFields_eq (map : JsonObject) :
    sanitizeFields map = mapValues sanitizeKeyword map := by
  induction map with
  | nil => rfl
  | cons e map ih =>
    obtain ⟨key, v⟩ := e
    have hhead : sanitizeFields ((key, v) :: map) =
        (key, sanitizeKeyword key v) :: sanitizeFields map := by
      cases v with
      | obj named => simp only [sanitizeFields, sanitizeKeyword, sanitizeNamed_eq]
      | _ => rfl
    rw [hhead, ih, mapValues_cons]

theorem sanitizeItems_eq (items : List Json) :
    sanitizeItems items = items.map sanitizeValueRecursive := by
  induction items with
  | nil => rfl
  | cons v items ih => rw [sanitizeItems, ih, List.map_cons]

@[simp] theorem sanitizeValueRecursive_str (s : String) :
    sanitizeValueRecursive (.str s) = .str s := rfl

theorem sanitizeValueRecursive_arr (items : List Json) :
    sanitizeValueRecursive (.arr items) = .arr (items.map sanitizeValueRecursive) := by
  rw [← sanitizeItems_eq]
  rfl

/-- A value is a string after the pass when it was the same string before. -/
@[simp] theorem asStr_sanitizeValueRecursive (v : Json) :
    (sanitizeValueRecursive v).asStr = v.asStr := by
  cases v with
  | bool b => cases b <;> rfl
  | _ => simp [sanitizeValueRecursive, Json.asStr]

theorem eq_str_of_sanitize {v : Json} {s : String} (h : sanitizeValueRecursive v = .str s) :
    v = .str s := by
  have hstr := asStr_sanitizeValueRecursive v
  rw [h] at hstr
  cases v with
  | str s' =>
    cases hstr
    rfl
  | _ => cases hstr

theorem sanitizeKeyword_of_plain {key : String} (hdata : key ∉ DATA_KEYWORDS)
    (hnamed : key ∉ NAMED_SUBSCHEMA_CONTAINERS) (v : Json) :
    sanitizeKeyword key v = sanitizeValueRecursive v := by
  simp [sanitizeKeyword, hdata, hnamed]

/-- Cleaning the fields does not change what the fold does. -/
theorem foldTitleIntoDescription_mapValues (map : JsonObject) :
    foldTitleIntoDescription (mapValues sanitizeKeyword map) =
      mapValues sanitizeKeyword (foldTitleIntoDescription map) := by
  have htitle : get (mapValues sanitizeKeyword map) "title" =
      (get map "title").map sanitizeValueRecursive := by
    rw [get_mapValues]
    cases get map "title" with
    | none => rfl
    | some v => exact congrArg some (sanitizeKeyword_of_plain (by decide) (by decide) v)
  have hdescription :
      nonblank (get (remove (mapValues sanitizeKeyword map) "title") "description") =
      nonblank (get (remove map "title") "description") := by
    rw [← mapValues_remove, get_mapValues]
    cases get (remove map "title") "description" with
    | none => rfl
    | some v =>
      rw [Option.map_some, sanitizeKeyword_of_plain (by decide) (by decide)]
      simp [nonblank]
  unfold foldTitleIntoDescription
  rw [htitle]
  cases get map "title" with
  | none => rfl
  | some title =>
    cases title with
    | str titleStr =>
      simp only [Option.map_some, sanitizeValueRecursive_str, hdescription]
      split_ifs
      · rw [mapValues_remove]
      · rw [mapValues_insert, mapValues_remove]
        rw [sanitizeKeyword_of_plain (by decide) (by decide), sanitizeValueRecursive_str]
      · rw [mapValues_remove]
    | bool b => cases b <;> simp [sanitizeValueRecursive, mapValues_remove]
    | _ => simp [sanitizeValueRecursive, mapValues_remove]

/-- An object is a schema node: `sanitizeSchemaNode` handles it. -/
theorem sanitizeValueRecursive_obj (map : JsonObject) :
    sanitizeValueRecursive (.obj map) = .obj (sanitizeSchemaNode map) := by
  rw [sanitizeValueRecursive, sanitizeFields_eq, ← mapValues_remove,
    foldTitleIntoDescription_mapValues, sanitizeSchemaNode]

/-! ## References -/

def MAX_REF_DEPTH : Nat := 64

/-- The definition a node refers to, with its name. -/
def refTarget (defs map : JsonObject) : Option (String × Json) :=
  match get map "$ref" with
  | some (.str refStr) =>
    (stripPrefix? refStr "#/$defs/").bind fun name => (get defs name).map fun d => (name, d)
  | _ => none

def truncateToPermissiveObject (map : JsonObject) : JsonObject :=
  let map := remove map "$ref"
  if containsKey map "type" then map else insert map "type" (.str "object")

/-- The fields of a truncated node: its own without the reference, or the type. -/
theorem mem_truncateToPermissiveObject {map : JsonObject} {k : String} {v : Json}
    (h : (k, v) ∈ truncateToPermissiveObject map) :
    ((k, v) ∈ map ∧ k ≠ "$ref") ∨ (k = "type" ∧ v = .str "object") := by
  simp only [truncateToPermissiveObject] at h
  split at h
  · exact Or.inl ((mem_remove_iff map _ _).mp h)
  · rcases mem_of_mem_insert h with he | h
    · exact Or.inr (Prod.mk.inj he)
    · exact Or.inl ((mem_remove_iff map _ _).mp h)

/-- The items of `siblings` that `items` lacks go to its end, each once. -/
def unionItems (items siblings : List Json) : List Json :=
  siblings.foldl (fun items item =>
    if items.any fun i => Json.valueEq i item then items else items ++ [item]) items

/-- What a sibling makes of the definition's value under its key. -/
def siblingValue (k : String) (old : Option Json) (v : Json) : Json :=
  match old, v with
  | some (.obj defProps), .obj sibProps =>
    if k = "properties" then .obj (extend defProps sibProps) else v
  | some (.arr defReq), .arr sibReq =>
    if k = "required" then .arr (unionItems defReq sibReq) else v
  | _, _ => v

/-- A definition with the siblings of a reference to it. -/
def mergeSiblings (inlined map : JsonObject) : JsonObject :=
  map.foldl (fun inlined e =>
    if e.1 = "$ref" then inlined
    else insert inlined e.1 (siblingValue e.1 (get inlined e.1) e.2)) inlined

def inlineReference (definition : Json) (map : JsonObject) : Json :=
  match definition with
  | .obj inlined => .obj (mergeSiblings inlined map)
  | definition => definition

mutual

/-- One level of `resolve_refs_inner`: `inlined` goes on with a definition that
has been put in the place of a reference. A truncated node loses its reference
after its fields are resolved, which is the same (`resolveRefsInner_truncated`). -/
def resolveWith (defs : JsonObject) (chain : List String) (inlined : String → Json → Json) :
    Json → Json
  | .obj map =>
    match refTarget defs map with
    | some (defName, definition) =>
      if chain.contains defName || decide (MAX_REF_DEPTH ≤ chain.length) then
        .obj (truncateToPermissiveObject (resolveFields defs chain inlined map))
      else inlined defName (inlineReference definition map)
    | none => .obj (resolveFields defs chain inlined map)
  | .arr items => .arr (resolveItems defs chain inlined items)
  | value => value

def resolveFields (defs : JsonObject) (chain : List String) (inlined : String → Json → Json) :
    List (String × Json) → List (String × Json)
  | [] => []
  | (key, v) :: rest =>
    (key, resolveWith defs chain inlined v) :: resolveFields defs chain inlined rest

def resolveItems (defs : JsonObject) (chain : List String) (inlined : String → Json → Json) :
    List Json → List Json
  | [] => []
  | v :: rest => resolveWith defs chain inlined v :: resolveItems defs chain inlined rest

end

/-- Each definition on the chain costs one of the levels that are left. -/
def resolveLevels (defs : JsonObject) : Nat → List String → Json → Json
  | 0, chain => resolveWith defs chain fun _ value => value
  | left + 1, chain =>
    resolveWith defs chain fun defName value => resolveLevels defs left (chain ++ [defName]) value

def resolveRefsInner (defs : JsonObject) (chain : List String) (value : Json) : Json :=
  resolveLevels defs (MAX_REF_DEPTH - chain.length) chain value

def resolveRefs (defs : JsonObject) (value : Json) : Json := resolveRefsInner defs [] value

theorem resolveFields_eq (defs : JsonObject) (chain : List String)
    (inlined : String → Json → Json) (map : JsonObject) :
    resolveFields defs chain inlined map =
      mapValues (fun _ v => resolveWith defs chain inlined v) map := by
  induction map with
  | nil => rfl
  | cons e map ih =>
    obtain ⟨key, v⟩ := e
    rw [resolveFields, ih, mapValues_cons]

theorem resolveItems_eq (defs : JsonObject) (chain : List String)
    (inlined : String → Json → Json) (items : List Json) :
    resolveItems defs chain inlined items = items.map (resolveWith defs chain inlined) := by
  induction items with
  | nil => rfl
  | cons v items ih => rw [resolveItems, ih, List.map_cons]

/-- At the full depth nothing is inlined any more. -/
theorem resolveWith_of_full {defs : JsonObject} {chain : List String}
    (hfull : MAX_REF_DEPTH ≤ chain.length) (f g : String → Json → Json) (value : Json) :
    resolveWith defs chain f value = resolveWith defs chain g value := by
  induction value using Json.walk with
  | arr items ih =>
    simp only [resolveWith, resolveItems_eq]
    rw [List.map_congr_left ih]
  | obj map ih =>
    simp only [resolveWith, resolveFields_eq, hfull, decide_true, Bool.or_true, if_true]
    rw [mapValues_congr ih]
  | _ => rfl

/-- The levels that are left are those the chain has not used. -/
theorem resolveRefsInner_eq (defs : JsonObject) (chain : List String) (value : Json) :
    resolveRefsInner defs chain value =
      resolveWith defs chain
        (fun defName value => resolveRefsInner defs (chain ++ [defName]) value) value := by
  unfold resolveRefsInner
  by_cases hfull : MAX_REF_DEPTH ≤ chain.length
  · rw [Nat.sub_eq_zero_of_le hfull, resolveLevels]
    exact resolveWith_of_full hfull _ _ value
  · obtain ⟨left, hleft⟩ : ∃ left, MAX_REF_DEPTH - chain.length = left + 1 :=
      ⟨MAX_REF_DEPTH - chain.length - 1, by omega⟩
    rw [hleft, resolveLevels]
    congr 1
    funext defName value
    rw [List.length_append, List.length_singleton, ← Nat.sub_sub, hleft, Nat.add_sub_cancel]

@[simp] theorem resolveRefsInner_str (defs : JsonObject) (chain : List String) (s : String) :
    resolveRefsInner defs chain (.str s) = .str s := by
  rw [resolveRefsInner_eq]
  rfl

theorem resolveRefsInner_arr (defs : JsonObject) (chain : List String) (items : List Json) :
    resolveRefsInner defs chain (.arr items) = .arr (items.map (resolveRefsInner defs chain)) := by
  rw [resolveRefsInner_eq, resolveWith, resolveItems_eq]
  congr 1
  exact List.map_congr_left fun v _ => (resolveRefsInner_eq defs chain v).symm

section Object

variable {defs map : JsonObject} {chain : List String} {defName : String} {definition : Json}

/-- The fields of an object are resolved on the chain the object is on. -/
theorem resolveFields_inner (map : JsonObject) :
    resolveFields defs chain
        (fun defName value => resolveRefsInner defs (chain ++ [defName]) value) map =
      mapValues (fun _ v => resolveRefsInner defs chain v) map := by
  rw [resolveFields_eq]
  exact mapValues_congr fun _ v _ => (resolveRefsInner_eq defs chain v).symm

theorem resolveRefsInner_plain (h : refTarget defs map = none) :
    resolveRefsInner defs chain (.obj map) =
      .obj (mapValues (fun _ v => resolveRefsInner defs chain v) map) := by
  rw [resolveRefsInner_eq, resolveWith, h]
  simp only [resolveFields_inner]

/-- Resolving the fields does not change what the truncation does. -/
theorem truncateToPermissiveObject_mapValues (map : JsonObject) :
    truncateToPermissiveObject (mapValues (fun _ v => resolveRefsInner defs chain v) map) =
      mapValues (fun _ v => resolveRefsInner defs chain v) (truncateToPermissiveObject map) := by
  have htype : containsKey
      (mapValues (fun _ v => resolveRefsInner defs chain v) (remove map "$ref")) "type" =
      containsKey (remove map "$ref") "type" := by
    simp [containsKey, get_mapValues]
  unfold truncateToPermissiveObject
  simp only [← mapValues_remove, htype]
  split_ifs
  · rfl
  · rw [mapValues_insert, resolveRefsInner_str]

/-- A reference that closes a cycle, or lies too deep, is dropped. -/
theorem resolveRefsInner_truncated (h : refTarget defs map = some (defName, definition))
    (hcut : defName ∈ chain ∨ MAX_REF_DEPTH ≤ chain.length) :
    resolveRefsInner defs chain (.obj map) =
      .obj (mapValues (fun _ v => resolveRefsInner defs chain v)
        (truncateToPermissiveObject map)) := by
  have hcond : (chain.contains defName || decide (MAX_REF_DEPTH ≤ chain.length)) = true := by
    simpa using hcut
  rw [resolveRefsInner_eq, resolveWith, h]
  simp only [hcond, if_true, resolveFields_inner, truncateToPermissiveObject_mapValues]

/-- Any other reference makes room for its definition, on a longer chain. -/
theorem resolveRefsInner_inlined (h : refTarget defs map = some (defName, definition))
    (hchain : defName ∉ chain) (hdepth : chain.length < MAX_REF_DEPTH) :
    resolveRefsInner defs chain (.obj map) =
      resolveRefsInner defs (chain ++ [defName]) (inlineReference definition map) := by
  have hcond : ¬ (chain.contains defName || decide (MAX_REF_DEPTH ≤ chain.length)) = true := by
    simpa [hchain] using hdepth
  rw [resolveRefsInner_eq, resolveWith, h]
  simp only [if_neg hcond]

end Object

/-- A value and a chain have what they hand on: the items, the fields of a
plain or a truncated node, the definition in the place of a reference. -/
@[elab_as_elim]
theorem resolve_induction {defs : JsonObject} {P : List String → Json → Prop}
    (chain : List String) (value : Json)
    (leaf : ∀ chain value, value.asArray = none → value.asObject = none → P chain value)
    (arr : ∀ chain items, (∀ v ∈ items, P chain v) → P chain (.arr items))
    (plain : ∀ chain map, refTarget defs map = none → (∀ k v, (k, v) ∈ map → P chain v) →
      P chain (.obj map))
    (truncated : ∀ chain map defName definition,
      refTarget defs map = some (defName, definition) →
      defName ∈ chain ∨ MAX_REF_DEPTH ≤ chain.length →
      (∀ k v, (k, v) ∈ truncateToPermissiveObject map → P chain v) → P chain (.obj map))
    (inlined : ∀ chain map defName definition,
      refTarget defs map = some (defName, definition) →
      defName ∉ chain → chain.length < MAX_REF_DEPTH →
      P (chain ++ [defName]) (inlineReference definition map) → P chain (.obj map)) :
    P chain value := by
  -- On the levels that are left, and within one level on the value.
  induction hleft : MAX_REF_DEPTH - chain.length using Nat.strong_induction_on
    generalizing chain value with
  | h left deeper =>
    induction value using Json.walk with
    | arr items ih => exact arr chain items ih
    | obj map ih =>
      cases htarget : refTarget defs map with
      | none => exact plain chain map htarget ih
      | some target =>
        obtain ⟨defName, definition⟩ := target
        by_cases hcut : defName ∈ chain ∨ MAX_REF_DEPTH ≤ chain.length
        · apply truncated chain map defName definition htarget hcut
          intro k v hv
          rcases mem_truncateToPermissiveObject hv with ⟨hv, -⟩ | ⟨-, rfl⟩
          · exact ih k v hv
          · exact leaf chain _ rfl rfl
        · obtain ⟨hchain, hdepth⟩ := not_or.mp hcut
          apply inlined chain map defName definition htarget hchain (by omega)
          apply deeper (MAX_REF_DEPTH - (chain ++ [defName]).length) _ _ _ rfl
          rw [List.length_append, List.length_singleton]
          omega
    | _ => exact leaf chain _ rfl rfl

/-- What is neither an array nor an object is left alone. -/
theorem resolveRefsInner_leaf {defs : JsonObject} {chain : List String} {value : Json}
    (harr : value.asArray = none) (hobj : value.asObject = none) :
    resolveRefsInner defs chain value = value := by
  rw [resolveRefsInner_eq]
  cases value with
  | arr items => cases harr
  | obj map => cases hobj
  | _ => rfl

def inlineDefs (schema : JsonObject) : JsonObject :=
  match get schema "$defs" with
  | some (.obj defs) => mapValues (fun _ value => resolveRefs defs value) (remove schema "$defs")
  | some v => insert (remove schema "$defs") "$defs" v
  | none => schema

/-! ## Flattening -/

def COMBINATORS : List String := ["oneOf", "anyOf", "allOf"]

-- `toJson` is `Value::to_string`.
variable (toJson : Json → String)

def valueLabel : Json → String
  | .str s => s
  | other => toJson other

def composeDiscriminantDescription (entries : List (Json × Option Json)) : Option String :=
  if entries.any fun e => (nonblank e.2).isSome then
    some (" · ".intercalate (entries.map fun e =>
      let label := "`" ++ valueLabel toJson e.1 ++ "`"
      match nonblank e.2 with
      | some d => label ++ ": " ++ trim d
      | none => label))
  else none

/-- What the loop over the variants keeps. -/
structure Flattening where
  mergedProps : JsonObject
  tagKey : Option String
  /-- Discriminant value and variant description, in variant order. -/
  tagEntries : List (Json × Option Json)
  tagPropDescription : Option String
  /-- Property to the labels of the variants that require it. -/
  requiredBy : BTreeMap String (List String)

def Flattening.empty : Flattening := ⟨[], none, [], none, []⟩

/-- First pass, one property: is it the discriminator? -/
def tagStep (description : Option Json) (s : Flattening × Option Json) (e : String × Json) :
    Flattening × Option Json :=
  match e.2.get "const" with
  | none => s
  | some constVal =>
    let tagKey := s.1.tagKey.getD e.1
    let st := { s.1 with tagKey := some tagKey }
    if tagKey ≠ e.1 then (st, s.2)
    else
      let st := { st with tagPropDescription := st.tagPropDescription.or (nonblankDescription e.2) }
      if st.tagEntries.any fun t => Json.valueEq t.1 constVal then (st, some constVal)
      else ({ st with tagEntries := st.tagEntries ++ [(constVal, description)] }, some constVal)

/-- What a slot of the merged properties holds after another variant's property:
the first schema stays, and takes over a description it does not have. -/
def mergedSchema (slot : Option Json) (propSchema : Json) : Json :=
  match slot with
  | none => propSchema
  | some kept =>
    match nonblankDescription kept, nonblankDescription propSchema, kept with
    | none, some newDescription, .obj keptMap =>
      .obj (insert keptMap "description" (.str newDescription))
    | _, _, _ => kept

def mergeProperty (mergedProps : JsonObject) (propName : String) (propSchema : Json) :
    JsonObject :=
  insert mergedProps propName (mergedSchema (get mergedProps propName) propSchema)

/-- Second pass, one property. -/
def propStep (variantTag : Option Json) (variantRequired : List String) (st : Flattening)
    (e : String × Json) : Flattening :=
  if (e.2.get "const").isSome then st
  else
    let st := { st with mergedProps := mergeProperty st.mergedProps e.1 e.2 }
    match variantTag with
    | some tag =>
      if variantRequired.contains e.1 then
        let label := valueLabel toJson tag
        let entry := (get st.requiredBy e.1).getD []
        let entry := if entry.contains label then entry else entry ++ [label]
        { st with requiredBy := insert st.requiredBy e.1 entry }
      else st
    | none => st

def requiredNames (variant : JsonObject) : List String :=
  match (get variant "required").bind Json.asArray with
  | some r => r.filterMap Json.asStr
  | none => []

def variantStep (st : Flattening) (variant : Json) : Flattening :=
  match variant with
  | .obj vObj =>
    match get vObj "properties" with
    | some (.obj vProps) =>
      let pass := vProps.foldl (tagStep (get vObj "description")) (st, none)
      vProps.foldl (propStep toJson pass.2 (requiredNames vObj)) pass.1
    | _ => st
  | _ => st

def requiredSuffix (tagKey : String) (tags : List String) : String :=
  "Required when " ++ tagKey ++ "=" ++ ", ".intercalate tags ++ "."

/-- A property's description with the variants that require it. -/
def describeRequired (tagKey : String) (mergedProps : JsonObject) (e : String × List String) :
    JsonObject :=
  match get mergedProps e.1 with
  | some (.obj prop) =>
    let suffix := requiredSuffix tagKey e.2
    let merged :=
      match nonblank (get prop "description") with
      | some existing => trimEnd existing ++ " " ++ suffix
      | none => suffix
    insert mergedProps e.1 (.obj (insert prop "description" (.str merged)))
  | _ => mergedProps

def discriminant (st : Flattening) : JsonObject :=
  let discriminant : JsonObject :=
    [("enum", .arr (st.tagEntries.map (·.1))), ("type", .str "string")]
  match (composeDiscriminantDescription toJson st.tagEntries).or st.tagPropDescription with
  | some description => insert discriminant "description" (.str description)
  | none => discriminant

/-- The properties of the flat object, and what it requires. -/
def flatProperties (st : Flattening) : JsonObject × List Json :=
  match st.tagKey with
  | some tk =>
    (st.requiredBy.foldl (describeRequired tk)
      (insert st.mergedProps tk (.obj (discriminant toJson st))), [.str tk])
  | none => (st.mergedProps, [])

def flattenVariants (schema : JsonObject) (variants : List Json) : JsonObject :=
  let flat := flatProperties toJson (variants.foldl (variantStep toJson) Flattening.empty)
  let schema := insert schema "type" (.str "object")
  let schema := insert schema "properties" (.obj flat.1)
  if flat.2.isEmpty then remove schema "required" else insert schema "required" (.arr flat.2)

/-- The combinator at the root that is flattened. -/
def rootCombinator (schema : JsonObject) : Option String :=
  COMBINATORS.find? fun k => containsKey schema k

def flattenTopLevelCombinator (schema : JsonObject) : JsonObject :=
  match rootCombinator schema with
  | none => schema
  | some combinatorKey =>
    match get schema combinatorKey with
    | some (.arr variants) => flattenVariants toJson (remove schema combinatorKey) variants
    | _ => remove schema combinatorKey

/-! ## A tool -/

/-- The passes an output schema goes through, and an input schema first. -/
def rewriteSchema (schema : JsonObject) : JsonObject :=
  flattenTopLevelCombinator toJson (inlineDefs (stripMetaFields schema))

/-- What becomes of an input schema, and whether its `type` was patched in. -/
def sanitizeInputSchema (schema : JsonObject) : JsonObject × Bool :=
  let schema := rewriteSchema toJson schema
  if containsKey schema "type" then (schema, false)
  else
    let schema := insert schema "type" (.str "object")
    (if containsKey schema "properties" then schema else insert schema "properties" (.obj []), true)

/-- The schemas of a tool are objects by their type. -/
def sanitizeOne (tool : Tool) : Tool × Bool :=
  match tool.inputSchema with
  | .obj schema =>
    let input := sanitizeInputSchema toJson schema
    ({ tool with
        inputSchema := .obj input.1
        outputSchema := tool.outputSchema.map fun output =>
          match output with
          | .obj os => .obj (rewriteSchema toJson os)
          | os => os }, input.2)
  | _ => (tool, false)

end McpFramework.Sanitize
