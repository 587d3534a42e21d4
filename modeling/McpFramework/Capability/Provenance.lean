import McpFramework.Capability.References
import McpFramework.Capability.SiblingMerging

/-!
# Capability — Provenance

Where the schema nodes of a resolved schema come from: a node of the input, or,
for an inlined reference, its siblings over the definition. What a resolved
node has under a data keyword is what the first of these has, resolved.
-/

namespace McpFramework.Sanitize

open Lib BTreeMap Json

/-! ## Places in a schema -/

/-- Keywords that hold text or names. -/
def TEXT_KEYWORDS : List String :=
  ["$ref", "$schema", "title", "description", "type", "required"]

/-- Any other keyword may hold a schema, or several. -/
def holdsSchemas (k : String) : Bool :=
  !(DATA_KEYWORDS.contains k || NAMED_SUBSCHEMA_CONTAINERS.contains k || TEXT_KEYWORDS.contains k)

/-- From a schema to a schema inside it. -/
inductive Step where
  | keyword (k : String)
  | member (k n : String)
  | item (i : Nat)
  deriving DecidableEq, Repr

/-- What a map of schemas has under a name. -/
def memberOf (map : JsonObject) (k n : String) : Option Json :=
  (get map k).bind fun named => named.get n

def schemaIn (value : Json) : Step → Option Json
  | .keyword k => if holdsSchemas k then value.get k else none
  | .member k n =>
    if NAMED_SUBSCHEMA_CONTAINERS.contains k then (value.get k).bind fun named => named.get n
    else none
  | .item i => value.asArray.bind fun items => items[i]?

def schemaAt (value : Json) : List Step → Option Json
  | [] => some value
  | step :: path => (schemaIn value step).bind fun v => schemaAt v path

/-- The value under a keyword of the schema node at a place. -/
def dataAt (value : Json) (path : List Step) (k : String) : Option Json :=
  (schemaAt value path).bind fun node => node.get k

theorem holdsSchemas_iff (k : String) :
    holdsSchemas k = true ↔
      k ∉ DATA_KEYWORDS ∧ k ∉ NAMED_SUBSCHEMA_CONTAINERS ∧ k ∉ TEXT_KEYWORDS := by
  simp [holdsSchemas, and_assoc]

/-- The maps of schemas at a node are no references themselves. -/
def NamesOnlySchemas (map : JsonObject) : Prop :=
  ∀ k ∈ NAMED_SUBSCHEMA_CONTAINERS, ∀ named s, get map k = some (.obj named) →
    get named "$ref" ≠ some (.str s)

/-- An input as the passes take it: a JSON value in which a name stands for a
schema, never for a string. -/
structure InputSchema (value : Json) : Prop where
  wellFormed : WellFormed value
  named : ∀ path map, schemaAt value path = some (.obj map) → NamesOnlySchemas map

theorem everyObject_of_get {P : JsonObject → Prop} {value v : Json} {k : String}
    (h : EveryObject P value) (hget : value.get k = some v) : EveryObject P v := by
  obtain ⟨map, rfl, hget⟩ := exists_obj_of_get hget
  exact h.field (mem_of_get hget)

theorem everyObject_of_schemaIn {P : JsonObject → Prop} {value v : Json} {step : Step}
    (h : EveryObject P value) (hv : schemaIn value step = some v) : EveryObject P v := by
  cases step with
  | keyword k =>
    simp only [schemaIn] at hv
    split_ifs at hv
    exact everyObject_of_get h hv
  | member k n =>
    simp only [schemaIn] at hv
    split_ifs at hv
    obtain ⟨named, hnamed, hv⟩ := Option.bind_eq_some_iff.mp hv
    exact everyObject_of_get (everyObject_of_get h hnamed) hv
  | item i =>
    obtain ⟨items, hitems, hv⟩ := Option.bind_eq_some_iff.mp hv
    cases value with
    | arr items' =>
      cases hitems
      exact h.item (List.mem_of_getElem? hv)
    | _ => cases hitems

/-- The schemas inside an input are inputs. -/
theorem InputSchema.inside {value v : Json} {step : Step} (h : InputSchema value)
    (hv : schemaIn value step = some v) : InputSchema v := by
  refine ⟨everyObject_of_schemaIn h.wellFormed hv, fun path map hmap => ?_⟩
  apply h.named (step :: path) map
  rw [schemaAt, hv]
  exact hmap

theorem InputSchema.node {map : JsonObject} (h : InputSchema (.obj map)) : NamesOnlySchemas map :=
  h.named [] map rfl

/-- What has no reference in any map of schemas can be given to the passes. -/
theorem InputSchema.of_everyObject {value : Json} (hwf : WellFormed value)
    (h : EveryObject NamesOnlySchemas value) : InputSchema value := by
  refine ⟨hwf, fun path => ?_⟩
  induction path generalizing value with
  | nil =>
    intro map hmap
    cases hmap
    exact h.node
  | cons step path ih =>
    intro map hmap
    obtain ⟨v, hv, hmap⟩ := Option.bind_eq_some_iff.mp hmap
    exact ih (everyObject_of_schemaIn hwf hv) (everyObject_of_schemaIn h hv) map hmap

/-! ## Sources -/

/-- What a schema of the output is made from: a value of the input, or objects
of it of which the earlier override the later, the siblings of a reference
before the definition. -/
inductive Source where
  | value (v : Json)
  | node (layers : List JsonObject)

def Source.of : Json → Source
  | .obj map => .node [map]
  | v => .value v

def lookup (layers : List JsonObject) (k : String) : Option Json :=
  layers.findSome? fun map => BTreeMap.get map k

/-- The first layer with the keyword counts; the `properties` of all are merged. -/
def memberIn (layers : List JsonObject) (k n : String) : Option Json :=
  if ((lookup layers k).bind Json.asObject).isSome then
    if k = "properties" then layers.findSome? fun map => memberOf map k n
    else (lookup layers k).bind fun named => named.get n
  else none

def Source.schemaIn : Source → Step → Option Json
  | .node layers, .keyword k => if holdsSchemas k then lookup layers k else none
  | .node layers, .member k n =>
    if NAMED_SUBSCHEMA_CONTAINERS.contains k then memberIn layers k n else none
  | .value v, .item i => v.asArray.bind fun items => items[i]?
  | _, _ => none

def Source.data : Source → String → Option Json
  | .node layers, k => lookup layers k
  | .value _, _ => none

/-- The reference of a node is the one of its last layer. -/
def referenceOf (defs : JsonObject) (layers : List JsonObject) : Option (String × Json) :=
  layers.getLast?.bind (refTarget defs)

/-- The layers over a definition; `true` is the empty schema. -/
def Source.over (layers : List JsonObject) : Json → Source
  | .obj map => .node (layers ++ [map])
  | .bool true => .node (layers ++ [[]])
  | v => .value v

/-- References are followed as far as `resolve_refs_inner` follows them. -/
def settle (defs : JsonObject) : Nat → List String → Source → List String × Source
  | left + 1, chain, .node layers =>
    match referenceOf defs layers with
    | some (name, definition) =>
      if chain.contains name then (chain, .node layers)
      else settle defs left (chain ++ [name]) (Source.over layers definition)
    | none => (chain, .node layers)
  | _, chain, source => (chain, source)

def settled (defs : JsonObject) (chain : List String) (source : Source) : List String × Source :=
  settle defs (MAX_REF_DEPTH - chain.length) chain source

/-- Where the schema at a place comes from, with the chain it is resolved on. -/
def sourceAt (defs : JsonObject) : List Step → List String → Source →
    Option (List String × Source)
  | [], chain, source => some (settled defs chain source)
  | step :: path, chain, source =>
    ((settled defs chain source).2.schemaIn step).bind fun v =>
      sourceAt defs path (settled defs chain source).1 (.of v)

/-! ## Layers -/

def isMap (value : Option Json) : Bool := (value.bind Json.asObject).isSome

/-- A node of the schema that is resolved, and the layers it was merged from:
it has what they have, cleaned. -/
structure Layered (layers : List JsonObject) (node : JsonObject) : Prop where
  wellFormed : WellFormed (.obj node)
  names : NamesOnlySchemas node
  reference : (get node "$ref").bind Json.asStr =
    (layers.getLast?.bind fun map => get map "$ref").bind Json.asStr
  data : ∀ k ∈ DATA_KEYWORDS, get node k = lookup layers k
  keyword : ∀ k, holdsSchemas k = true →
    get node k = (lookup layers k).map sanitizeValueRecursive
  present : ∀ k ∈ NAMED_SUBSCHEMA_CONTAINERS, (get node k).isSome = (lookup layers k).isSome
  maps : ∀ k ∈ NAMED_SUBSCHEMA_CONTAINERS, isMap (get node k) = isMap (lookup layers k)
  member : ∀ k ∈ NAMED_SUBSCHEMA_CONTAINERS, ∀ n,
    memberOf node k n = (memberIn layers k n).map sanitizeValueRecursive

theorem lookup_singleton (map : JsonObject) (k : String) : lookup [map] k = get map k := by
  simp [lookup]

theorem lookup_append (layers : List JsonObject) (map : JsonObject) (k : String) :
    lookup (layers ++ [map]) k = (lookup layers k).or (get map k) := by
  rw [lookup, List.findSome?_append]
  simp [lookup]

theorem memberIn_singleton (map : JsonObject) (k n : String) :
    memberIn [map] k n = memberOf map k n := by
  unfold memberIn memberOf
  rw [lookup_singleton]
  cases hget : get map k with
  | none => rfl
  | some v =>
    cases v with
    | obj named => simp [hget, Json.asObject]
    | _ => simp [Json.asObject, Json.get]

theorem wellFormed_sanitize {value : Json} (h : WellFormed value) :
    WellFormed (sanitizeValueRecursive value) :=
  everyObject_sanitize List.Pairwise.nil (fun _ hmap => sorted_sanitizeSchemaNode hmap)
    (fun _ hnamed => Sorted.mapValues hnamed _) h

/-- The keywords of a clean node that matter here are its own, cleaned. -/
theorem get_clean (map : JsonObject) {k : String}
    (hk : k ∉ ["title", "description", "$schema"]) :
    get (sanitizeSchemaNode map) k = (get map k).map (sanitizeKeyword k) := by
  simp only [List.mem_cons, List.not_mem_nil, or_false, not_or] at hk
  rw [get_sanitizeSchemaNode map hk.2.1, if_neg (by tauto)]

theorem named_is_plain {k : String} (hk : k ∈ NAMED_SUBSCHEMA_CONTAINERS) :
    k ≠ "$ref" ∧ k ≠ "required" ∧ k ∉ DATA_KEYWORDS ∧ k ∉ ["title", "description", "$schema"] := by
  revert k
  decide

theorem get_clean_named (map : JsonObject) {k : String} (hk : k ∈ NAMED_SUBSCHEMA_CONTAINERS) :
    get (sanitizeSchemaNode map) k = (get map k).map (sanitizeKeyword k) ∧
      ∀ named, sanitizeKeyword k (.obj named) =
        .obj (mapValues (fun _ s => sanitizeValueRecursive s) named) := by
  obtain ⟨-, -, hdata, hmeta⟩ := named_is_plain hk
  refine ⟨get_clean map hmeta, fun named => ?_⟩
  simp [sanitizeKeyword, hdata, hk]

theorem sanitizeKeyword_of_no_map {k : String} (hk : k ∈ NAMED_SUBSCHEMA_CONTAINERS) {v : Json}
    (hv : v.asObject = none) : sanitizeKeyword k v = v := by
  obtain ⟨-, -, hdata, -⟩ := named_is_plain hk
  cases v with
  | obj named => cases hv
  | _ => simp [sanitizeKeyword, hdata, hk]

/-- A clean node was made from its own input. -/
theorem layered_clean {map : JsonObject} (h : InputSchema (.obj map)) :
    Layered [map] (sanitizeSchemaNode map) := by
  constructor
  · rw [← sanitizeValueRecursive_obj]
    exact wellFormed_sanitize h.wellFormed
  · intro k hk named s hget
    obtain ⟨hclean, hmap⟩ := get_clean_named map hk
    rw [hclean] at hget
    obtain ⟨v, hv, he⟩ := Option.map_eq_some_iff.mp hget
    cases v with
    | obj named' =>
      rw [hmap] at he
      cases he
      rw [get_mapValues]
      intro hs
      obtain ⟨r, hr, he⟩ := Option.map_eq_some_iff.mp hs
      exact h.node k hk named' s hv (eq_str_of_sanitize he ▸ hr)
    | _ =>
      rw [sanitizeKeyword_of_no_map hk rfl] at he
      cases he
  · have hlast : ([map].getLast?.bind fun map => BTreeMap.get map "$ref") = get map "$ref" := rfl
    rw [get_clean map (by decide), hlast]
    cases get map "$ref" with
    | none => rfl
    | some v =>
      rw [Option.map_some, Option.bind_some, Option.bind_some,
        sanitizeKeyword_of_plain (by decide) (by decide), asStr_sanitizeValueRecursive]
  · intro k hk
    have hplain : k ∉ ["title", "description", "$schema"] := by
      revert k
      decide
    have hkept : sanitizeKeyword k = id := funext fun v => if_pos (by simpa using hk)
    -- Under a data keyword the pass changes nothing.
    rw [get_clean map hplain, lookup_singleton, hkept, Option.map_id, id]
  · intro k hk
    obtain ⟨hdata, hnamed, htext⟩ := (holdsSchemas_iff k).mp hk
    have hplain : k ∉ ["title", "description", "$schema"] := by
      simp only [TEXT_KEYWORDS, List.mem_cons, List.not_mem_nil, or_false, not_or] at htext ⊢
      tauto
    rw [get_clean map hplain, lookup_singleton, funext (sanitizeKeyword_of_plain hdata hnamed)]
  · intro k hk
    rw [(get_clean_named map hk).1, lookup_singleton, Option.isSome_map]
  · intro k hk
    obtain ⟨hclean, hmap⟩ := get_clean_named map hk
    rw [hclean, lookup_singleton]
    cases get map k with
    | none => rfl
    | some v =>
      rw [Option.map_some]
      cases v with
      | obj named => rw [hmap]; rfl
      | _ => rw [sanitizeKeyword_of_no_map hk rfl]
  · intro k hk n
    obtain ⟨hclean, hmap⟩ := get_clean_named map hk
    rw [memberIn_singleton, memberOf, hclean]
    unfold memberOf
    cases get map k with
    | none => rfl
    | some v =>
      cases v with
      | obj named =>
        simp only [Option.map_some, hmap, Option.bind_some, Json.get_obj, get_mapValues]
      | _ =>
        rw [Option.map_some, sanitizeKeyword_of_no_map hk rfl]
        rfl

theorem memberIn_eq_none {layers : List JsonObject} {k : String} (n : String)
    (h : isMap (lookup layers k) = false) : memberIn layers k n = none := by
  unfold memberIn
  exact if_neg (by simpa [isMap] using h)

theorem memberIn_properties {layers : List JsonObject} (n : String)
    (h : isMap (lookup layers "properties") = true) :
    memberIn layers "properties" n = layers.findSome? fun map => memberOf map "properties" n := by
  unfold memberIn
  rw [if_pos (by simpa [isMap] using h), if_pos rfl]

theorem memberIn_other {layers : List JsonObject} {k : String} (hk : k ≠ "properties")
    (n : String) :
    memberIn layers k n = (lookup layers k).bind fun named => named.get n := by
  unfold memberIn
  rw [if_neg hk]
  cases lookup layers k with
  | none => rfl
  | some v =>
    cases v with
    | obj named => rfl
    | _ => rfl

theorem memberIn_append_properties (layers : List JsonObject) (map : JsonObject) (n : String) :
    memberIn (layers ++ [map]) "properties" n =
      if isMap (lookup layers "properties") then
        (memberIn layers "properties" n).or (memberOf map "properties" n)
      else if (lookup layers "properties").isSome then none
      else memberOf map "properties" n := by
  cases hmap : isMap (lookup layers "properties") with
  | true =>
    have hlonger : isMap (lookup (layers ++ [map]) "properties") = true := by
      rw [lookup_append]
      cases hlookup : lookup layers "properties" with
      | none =>
        rw [hlookup] at hmap
        cases hmap
      | some v => rwa [hlookup] at hmap
    rw [memberIn_properties n hlonger, List.findSome?_append, memberIn_properties n hmap]
    simp
  | false =>
    cases hlookup : lookup layers "properties" with
    | none =>
      have habsent : layers.findSome? (fun map => memberOf map "properties" n) = none := by
        rw [List.findSome?_eq_none_iff]
        intro l hl
        rw [memberOf, List.findSome?_eq_none_iff.mp hlookup l hl]
        rfl
      have hlonger : lookup (layers ++ [map]) "properties" = get map "properties" := by
        rw [lookup_append, hlookup, Option.none_or]
      cases hown : isMap (get map "properties") with
      | true =>
        rw [memberIn_properties n (hlonger.symm ▸ hown), List.findSome?_append, habsent]
        simp
      | false =>
        have hnone : memberOf map "properties" n = none := by
          rw [← memberIn_singleton]
          exact memberIn_eq_none n (by rwa [lookup_singleton])
        rw [memberIn_eq_none n (hlonger.symm ▸ hown), hnone]
        simp
    | some v =>
      rw [memberIn_eq_none n (by rw [lookup_append, hlookup]; rwa [hlookup] at hmap)]
      rfl

section Merge

variable {layers : List JsonObject} {node map definition : JsonObject}

/-- A keyword that is not combined: the siblings override the definition. -/
theorem get_merged_other (hsorted : Sorted node) {k : String}
    (hk : k ∉ ["$ref", "properties", "required"]) :
    get (mergeSiblings definition node) k = (get node k).or (get definition k) := by
  simp only [List.mem_cons, List.not_mem_nil, or_false, not_or] at hk
  rw [get_mergeSiblings _ hsorted, if_neg hk.1]
  cases get node k with
  | none => rfl
  | some v => rw [Option.map_some, siblingValue_other hk.2.1 hk.2.2]

/-- The `properties` of the definition are added where the siblings have a map of them. -/
theorem get_merged_properties (hsorted : Sorted node) :
    get (mergeSiblings definition node) "properties" =
      ((get node "properties").map
        (siblingValue "properties" (get definition "properties"))).or
          (get definition "properties") := by
  rw [get_mergeSiblings _ hsorted, if_neg (by decide)]

theorem siblingValue_no_map {old : Option Json} {v : Json} (hv : v.asObject = none) :
    siblingValue "properties" old v = v := by
  unfold siblingValue
  split
  · cases hv
  · exact if_neg (by decide)
  · rfl

theorem isMap_siblingValue {k : String} (hk : k ≠ "required") (old : Option Json) (v : Json) :
    isMap (some (siblingValue k old v)) = isMap (some v) := by
  unfold siblingValue
  split
  · split_ifs <;> rfl
  · rw [if_neg hk]
  · rfl

theorem isMap_merged (hsorted : Sorted node) {k : String} (hk : k ∈ NAMED_SUBSCHEMA_CONTAINERS) :
    isMap (get (mergeSiblings definition node) k) =
      isMap ((get node k).or (get definition k)) := by
  obtain ⟨href, hreq, -⟩ := named_is_plain hk
  rw [get_mergeSiblings _ hsorted, if_neg href]
  cases get node k with
  | none => rfl
  | some v => exact isMap_siblingValue hreq _ v

theorem namesOnlySchemas_mergeSiblings (hwf : WellFormed (.obj node))
    (hnode : NamesOnlySchemas node) (hdef : NamesOnlySchemas definition) :
    NamesOnlySchemas (mergeSiblings definition node) := by
  intro k hk named s hget
  obtain ⟨href, hreq, -⟩ := named_is_plain hk
  rw [get_mergeSiblings _ hwf.node, if_neg href] at hget
  cases hv : get node k with
  | none =>
    rw [hv] at hget
    exact hdef k hk named s hget
  | some v =>
    rw [hv, Option.map_some, Option.some_or] at hget
    unfold siblingValue at hget
    split at hget
    · next p q hp =>
      split_ifs at hget
      · cases hget
        have hq : Sorted q := (hwf.field (mem_of_get hv)).node
        exact unreferenced_extend hq (fun s => hdef k hk p s hp) (fun s => hnode k hk q s hv) s
      · cases hget
        exact hnode k hk named s hv
    · rw [if_neg hreq] at hget
      cases hget
    · cases hget
      exact hnode k hk named s hv

theorem memberOf_merged_other (hsorted : Sorted node) {k : String}
    (hk : k ∈ NAMED_SUBSCHEMA_CONTAINERS) (hprops : k ≠ "properties") (n : String) :
    memberOf (mergeSiblings definition node) k n =
      if (get node k).isSome then memberOf node k n else memberOf definition k n := by
  obtain ⟨href, hreq, -⟩ := named_is_plain hk
  unfold memberOf
  rw [get_merged_other hsorted (by simp [href, hreq, hprops])]
  cases get node k <;> rfl

theorem memberOf_merged_properties (hwf : WellFormed (.obj node)) (n : String) :
    memberOf (mergeSiblings definition node) "properties" n =
      if isMap (get node "properties") then
        (memberOf node "properties" n).or (memberOf definition "properties" n)
      else if (get node "properties").isSome then none
      else memberOf definition "properties" n := by
  unfold memberOf
  rw [get_merged_properties hwf.node]
  cases hv : get node "properties" with
  | none => rfl
  | some v =>
    rw [Option.map_some, Option.some_or]
    cases v with
    | obj q =>
      have hq : Sorted q := (hwf.field (mem_of_get hv)).node
      cases hp : get definition "properties" with
      | none => simp [siblingValue_none, isMap, Json.asObject]
      | some w =>
        cases w with
        | obj p => simp [siblingValue, isMap, Json.asObject, get_extend p hq]
        | _ => simp [siblingValue, isMap, Json.asObject, Json.get]
    | _ =>
      rw [siblingValue_no_map rfl]
      rfl

/-- A definition becomes the last layer. -/
theorem layered_mergeSiblings (h : Layered layers node) (hdef : Layered [map] definition) :
    Layered (layers ++ [map]) (mergeSiblings definition node) := by
  have hsorted := h.wellFormed.node
  constructor
  · exact everyObject_inlineReference (fun _ _ hs _ => sorted_mergeSiblings hs _)
      (fun _ _ hs _ => Sorted.extend hs _) hdef.wellFormed h.wellFormed
  · exact namesOnlySchemas_mergeSiblings h.wellFormed h.names hdef.names
  · rw [get_mergeSiblings _ hsorted, if_pos rfl, hdef.reference, List.getLast?_concat]
    rfl
  · intro k hk
    have hplain : k ∉ ["$ref", "properties", "required"] := by
      revert k
      decide
    rw [get_merged_other hsorted hplain, h.data k hk, hdef.data k hk, lookup_append,
      lookup_singleton]
  · intro k hk
    obtain ⟨-, hnamed, htext⟩ := (holdsSchemas_iff k).mp hk
    have hplain : k ∉ ["$ref", "properties", "required"] := by
      simp only [NAMED_SUBSCHEMA_CONTAINERS, TEXT_KEYWORDS, List.mem_cons, List.not_mem_nil,
        or_false, not_or] at hnamed htext ⊢
      tauto
    rw [get_merged_other hsorted hplain, h.keyword k hk, hdef.keyword k hk, lookup_append,
      lookup_singleton, Option.map_or]
  · intro k hk
    obtain ⟨href, -⟩ := named_is_plain hk
    rw [get_mergeSiblings _ hsorted, if_neg href, lookup_append, Option.isSome_or,
      Option.isSome_map, Option.isSome_or, h.present k hk, hdef.present k hk, lookup_singleton]
  · -- The first layer that has the keyword decides whether it is a map.
    intro k hk
    have hmap := h.maps k hk
    have hpresent := h.present k hk
    rw [isMap_merged hsorted hk, lookup_append]
    cases hv : get node k with
    | none =>
      rw [hv, Option.isSome_none, eq_comm, Option.isSome_eq_false_iff,
        Option.isNone_iff_eq_none] at hpresent
      rw [hpresent, Option.none_or, Option.none_or, hdef.maps k hk, lookup_singleton]
    | some v =>
      rw [hv, Option.isSome_some, eq_comm] at hpresent
      obtain ⟨w, hw⟩ := Option.isSome_iff_exists.mp hpresent
      rw [hw] at hmap ⊢
      rw [Option.some_or, Option.some_or, ← hmap, hv]
  · intro k hk n
    have hpresent := h.present k hk
    have hmember := h.member k hk n
    have hmember' := hdef.member k hk n
    rw [memberIn_singleton] at hmember'
    -- Only properties are merged name by name; the other maps replace each other.
    by_cases hprops : k = "properties"
    · subst hprops
      rw [memberOf_merged_properties h.wellFormed, memberIn_append_properties, hmember, hmember',
        h.maps _ hk, hpresent]
      split_ifs
      · rw [Option.map_or]
      · rfl
      · rfl
    · rw [memberOf_merged_other hsorted hk hprops, memberIn_other hprops, lookup_append, hmember,
        hmember', hpresent, memberIn_other hprops]
      cases lookup layers k <;> rfl

end Merge

/-! ## Resolving -/

/-- The definitions after the first pass. -/
def cleanDefs (defs : JsonObject) : JsonObject :=
  mapValues (fun _ definition => sanitizeValueRecursive definition) defs

/-- What the second pass sees of a source. -/
inductive Represents : Source → Json → Prop where
  | value {v : Json} : InputSchema v → v.asObject = none →
      Represents (.value v) (sanitizeValueRecursive v)
  | node {layers : List JsonObject} {node : JsonObject} :
      (∀ map ∈ layers, InputSchema (.obj map)) → Layered layers node →
      Represents (.node layers) (.obj node)

theorem represents_of {v : Json} (h : InputSchema v) :
    Represents (.of v) (sanitizeValueRecursive v) := by
  cases v with
  | obj map =>
    rw [sanitizeValueRecursive_obj]
    refine .node (fun map' hmap => ?_) (layered_clean h)
    rw [List.mem_singleton.mp hmap]
    exact h
  | _ => exact .value h rfl

theorem inputSchema_empty : InputSchema (.obj []) :=
  InputSchema.of_everyObject (by decide) (.obj nofun nofun)

theorem represents_over {layers : List JsonObject} {node : JsonObject}
    (hlayers : ∀ map ∈ layers, InputSchema (.obj map)) (h : Layered layers node)
    {definition : Json} (hdef : InputSchema definition) :
    Represents (Source.over layers definition)
      (inlineReference (sanitizeValueRecursive definition) node) := by
  have hlast : ∀ map, InputSchema (.obj map) →
      Represents (.node (layers ++ [map]))
        (.obj (mergeSiblings (sanitizeSchemaNode map) node)) := by
    intro map hmap
    refine .node (fun map' hin => ?_) (layered_mergeSiblings h (layered_clean hmap))
    rcases List.mem_append.mp hin with hin | hin
    · exact hlayers map' hin
    · rw [List.mem_singleton.mp hin]
      exact hmap
  cases definition with
  | obj map =>
    rw [sanitizeValueRecursive_obj]
    exact hlast map hdef
  | bool b =>
    cases b with
    | true => exact hlast [] inputSchema_empty
    | false => exact .value hdef rfl
  | arr items =>
    rw [sanitizeValueRecursive_arr, inlineReference, ← sanitizeValueRecursive_arr]
    · exact .value hdef rfl
    · exact nofun
  | _ => exact .value hdef rfl

theorem refTarget_eq (defs map : JsonObject) :
    refTarget defs map = ((get map "$ref").bind Json.asStr).bind fun refStr =>
      (stripPrefix? refStr "#/$defs/").bind fun name =>
        (get defs name).map fun d => (name, d) := by
  unfold refTarget
  cases get map "$ref" with
  | none => rfl
  | some v => cases v <;> rfl

theorem refTarget_clean (defs : JsonObject) {layers : List JsonObject} {node : JsonObject}
    (h : Layered layers node) :
    refTarget (cleanDefs defs) node =
      (referenceOf defs layers).map fun t => (t.1, sanitizeValueRecursive t.2) := by
  have hlast : referenceOf defs layers =
      ((layers.getLast?.bind fun map => BTreeMap.get map "$ref").bind Json.asStr).bind fun refStr =>
        (stripPrefix? refStr "#/$defs/").bind fun name =>
          (get defs name).map fun d => (name, d) := by
    unfold referenceOf
    cases layers.getLast? with
    | none => rfl
    | some map => exact refTarget_eq defs map
  rw [refTarget_eq, h.reference, hlast]
  cases (layers.getLast?.bind fun map => BTreeMap.get map "$ref").bind Json.asStr with
  | none => rfl
  | some refStr =>
    simp only [Option.bind_some]
    cases stripPrefix? refStr "#/$defs/" with
    | none => rfl
    | some name =>
      simp only [Option.bind_some, cleanDefs, get_mapValues, Option.map_map]
      rfl

section Resolve

variable {defs : JsonObject} (hdefs : ∀ name d, get defs name = some d → InputSchema d)

/-- No reference is followed any further: there is none, or it is cut. -/
def Stays (defs : JsonObject) (chain : List String) (source : Source) : Prop :=
  ∀ layers, source = .node layers → ∀ name d, referenceOf defs layers = some (name, d) →
    name ∈ chain ∨ MAX_REF_DEPTH ≤ chain.length

include hdefs in
/-- To follow the references first does not change what comes out. -/
theorem settled_spec (chain : List String) {source : Source} {value : Json}
    (h : Represents source value) :
    ∃ value', Represents (settled defs chain source).2 value' ∧
      Stays defs (settled defs chain source).1 (settled defs chain source).2 ∧
      resolveRefsInner (cleanDefs defs) chain value =
        resolveRefsInner (cleanDefs defs) (settled defs chain source).1 value' := by
  unfold settled
  -- On the references that may still be followed.
  induction hleft : MAX_REF_DEPTH - chain.length generalizing chain source value with
  | zero =>
    have hfull : MAX_REF_DEPTH ≤ chain.length := Nat.le_of_sub_eq_zero hleft
    exact ⟨value, h, fun _ _ _ _ _ => Or.inr hfull, rfl⟩
  | succ left ih =>
    cases h with
    | value hv hobj => exact ⟨_, .value hv hobj, nofun, rfl⟩
    | node hlayers hnode =>
      rename_i layers node
      rw [settle]
      cases hreference : referenceOf defs layers with
      | none =>
        refine ⟨_, .node hlayers hnode, ?_, rfl⟩
        rintro _ ⟨⟩ name d hd
        rw [hreference] at hd
        cases hd
      | some target =>
        obtain ⟨name, definition⟩ := target
        dsimp only
        split_ifs with hchain
        · refine ⟨_, .node hlayers hnode, ?_, rfl⟩
          rintro _ ⟨⟩ name' d hd
          rw [hreference] at hd
          cases hd
          exact Or.inl (by simpa using hchain)
        · have htarget := refTarget_clean defs hnode
          rw [hreference, Option.map_some] at htarget
          obtain ⟨map, -, hmap⟩ := Option.bind_eq_some_iff.mp hreference
          have hdef := hdefs name definition (refTarget_some hmap).2
          rw [resolveRefsInner_inlined htarget (by simpa using hchain) (by omega)]
          apply ih _ (represents_over hlayers hnode hdef)
          rw [List.length_append, List.length_singleton]
          omega

/-- The fields of a node that stays are resolved on its chain. -/
theorem get_resolve_stays {chain : List String} {layers : List JsonObject} {node : JsonObject}
    (h : Layered layers node) (hstays : Stays defs chain (.node layers)) {k : String}
    (href : k ≠ "$ref") (htype : k ≠ "type") :
    (resolveRefsInner (cleanDefs defs) chain (.obj node)).get k =
      (get node k).map (resolveRefsInner (cleanDefs defs) chain) := by
  have htarget := refTarget_clean defs h
  cases hreference : referenceOf defs layers with
  | none =>
    rw [hreference] at htarget
    rw [resolveRefsInner_plain htarget, Json.get_obj, get_mapValues]
  | some target =>
    obtain ⟨name, definition⟩ := target
    rw [hreference] at htarget
    have hcut := hstays layers rfl name definition hreference
    have hget : get (truncateToPermissiveObject node) k = get node k := by
      simp only [truncateToPermissiveObject]
      split_ifs
      · exact get_remove_of_ne _ href
      · rw [get_insert_of_ne _ _ htype, get_remove_of_ne _ href]
    rw [resolveRefsInner_truncated htarget hcut, Json.get_obj, get_mapValues, hget]

theorem asArray_resolve_stays {chain : List String} {layers : List JsonObject} {node : JsonObject}
    (h : Layered layers node) (hstays : Stays defs chain (.node layers)) :
    (resolveRefsInner (cleanDefs defs) chain (.obj node)).asArray = none := by
  have htarget := refTarget_clean defs h
  cases hreference : referenceOf defs layers with
  | none =>
    rw [hreference] at htarget
    rw [resolveRefsInner_plain htarget]
    rfl
  | some target =>
    rw [hreference] at htarget
    rw [resolveRefsInner_truncated htarget (hstays layers rfl _ _ hreference)]
    rfl

theorem resolveRefsInner_empty (defs : JsonObject) (chain : List String) :
    resolveRefsInner defs chain (.obj []) = .obj [] :=
  resolveRefsInner_plain rfl

/-- A value that is no object has no members after the passes. -/
theorem get_resolve_value {v : Json} (hobj : v.asObject = none) (chain : List String) (k : String) :
    (resolveRefsInner defs chain (sanitizeValueRecursive v)).get k = none := by
  cases v with
  | obj map => cases hobj
  | bool b =>
    cases b with
    | true => rw [sanitizeValueRecursive, resolveRefsInner_empty]; rfl
    | false => rw [resolveRefsInner_leaf rfl rfl]; rfl
  | arr items => rw [sanitizeValueRecursive_arr, resolveRefsInner_arr]; rfl
  | _ => rw [resolveRefsInner_leaf rfl rfl]; rfl

/-- A resolved map of schemas that is no reference. -/
theorem member_resolve {chain : List String} {named : Option Json}
    (h : ∀ map s, named = some (.obj map) → get map "$ref" ≠ some (.str s)) (n : String) :
    ((named.map (resolveRefsInner defs chain)).bind fun named => named.get n) =
      (named.bind fun named => named.get n).map (resolveRefsInner defs chain) := by
  cases named with
  | none => rfl
  | some v =>
    simp only [Option.map_some, Option.bind_some]
    cases v with
    | obj map =>
      have hplain : refTarget defs map = none := by
        unfold refTarget
        split
        · next s hs => exact absurd hs (h map s rfl)
        · rfl
      rw [resolveRefsInner_plain hplain, Json.get_obj, Json.get_obj, get_mapValues]
    | arr items => rw [resolveRefsInner_arr]; rfl
    | _ => rw [resolveRefsInner_leaf rfl rfl]; rfl

theorem schemaIn_resolve {chain : List String} {source : Source} {value : Json}
    (h : Represents source value) (hstays : Stays defs chain source) (step : Step) :
    schemaIn (resolveRefsInner (cleanDefs defs) chain value) step =
      (source.schemaIn step).map fun v =>
        resolveRefsInner (cleanDefs defs) chain (sanitizeValueRecursive v) := by
  cases h with
  | value hv hobj =>
    rename_i v
    cases step with
    | keyword k =>
      simp only [schemaIn, get_resolve_value hobj, ite_self]
      rfl
    | member k n =>
      simp only [schemaIn, get_resolve_value hobj, Option.bind_none, ite_self]
      rfl
    | item i =>
      simp only [schemaIn, Source.schemaIn]
      cases v with
      | obj map => cases hobj
      | bool b =>
        cases b with
        | true => rw [sanitizeValueRecursive, resolveRefsInner_empty]; rfl
        | false => rw [resolveRefsInner_leaf rfl rfl]; rfl
      | arr items =>
        rw [sanitizeValueRecursive_arr, resolveRefsInner_arr]
        simp only [Json.asArray, Option.bind_some, List.getElem?_map, Option.map_map]
        rfl
      | _ => rw [resolveRefsInner_leaf rfl rfl]; rfl
  | node hlayers hnode =>
    rename_i layers node
    cases step with
    | keyword k =>
      simp only [schemaIn, Source.schemaIn]
      split_ifs with hk
      · obtain ⟨-, -, htext⟩ := (holdsSchemas_iff k).mp hk
        have hplain : k ≠ "$ref" ∧ k ≠ "type" := by
          simp only [TEXT_KEYWORDS, List.mem_cons, List.not_mem_nil, or_false, not_or] at htext
          tauto
        rw [get_resolve_stays hnode hstays hplain.1 hplain.2, hnode.keyword k hk, Option.map_map]
        rfl
      · rfl
    | member k n =>
      simp only [schemaIn, Source.schemaIn]
      split_ifs with hk
      · have hnamed : k ∈ NAMED_SUBSCHEMA_CONTAINERS := by simpa using hk
        have htype : k ≠ "type" := by
          rintro rfl
          exact absurd hnamed (by decide)
        have hmember := hnode.member k hnamed n
        unfold memberOf at hmember
        rw [get_resolve_stays hnode hstays (named_is_plain hnamed).1 htype,
          member_resolve fun map s hmap => hnode.names k hnamed map s hmap, hmember, Option.map_map]
        rfl
      · rfl
    | item i =>
      simp only [schemaIn, Source.schemaIn, asArray_resolve_stays hnode hstays]
      rfl

theorem lookup_some {layers : List JsonObject} {k : String} {v : Json}
    (h : lookup layers k = some v) : ∃ map ∈ layers, get map k = some v :=
  List.exists_of_findSome?_eq_some h

theorem memberIn_some {layers : List JsonObject} {k n : String} {v : Json}
    (h : memberIn layers k n = some v) : ∃ map ∈ layers, memberOf map k n = some v := by
  unfold memberIn at h
  split_ifs at h
  · exact List.exists_of_findSome?_eq_some h
  · obtain ⟨named, hnamed, hv⟩ := Option.bind_eq_some_iff.mp h
    obtain ⟨map, hmap, hget⟩ := lookup_some hnamed
    exact ⟨map, hmap, Option.bind_eq_some_iff.mpr ⟨named, hget, hv⟩⟩

/-- A schema inside a source is a schema of the input. -/
theorem inputSchema_of_source {source : Source} {value v : Json} {step : Step}
    (h : Represents source value) (hv : source.schemaIn step = some v) : InputSchema v := by
  cases h with
  | value hin hobj =>
    cases step with
    | item i => exact hin.inside (show schemaIn _ (.item i) = some v from hv)
    | _ => cases hv
  | node hlayers hnode =>
    cases step with
    | keyword k =>
      simp only [Source.schemaIn] at hv
      split_ifs at hv with hk
      obtain ⟨map, hmap, hget⟩ := lookup_some hv
      have hinside : schemaIn (.obj map) (.keyword k) = some v := by
        rw [schemaIn, if_pos hk]
        exact hget
      exact (hlayers map hmap).inside hinside
    | member k n =>
      simp only [Source.schemaIn] at hv
      split_ifs at hv with hk
      obtain ⟨map, hmap, hget⟩ := memberIn_some hv
      have hinside : schemaIn (.obj map) (.member k n) = some v := by
        rw [schemaIn, if_pos hk]
        exact hget
      exact (hlayers map hmap).inside hinside
    | item i => cases hv

include hdefs in
/-- The schema at a place of a resolved schema is what was found at its source, resolved. -/
theorem schemaAt_resolve (path : List Step) (chain : List String) {source : Source} {value : Json}
    (h : Represents source value) :
    (sourceAt defs path chain source = none →
        schemaAt (resolveRefsInner (cleanDefs defs) chain value) path = none) ∧
      ∀ c s, sourceAt defs path chain source = some (c, s) → ∃ value',
        Represents s value' ∧ Stays defs c s ∧
          schemaAt (resolveRefsInner (cleanDefs defs) chain value) path =
            some (resolveRefsInner (cleanDefs defs) c value') := by
  induction path generalizing chain source value with
  | nil =>
    obtain ⟨value', hrep, hstays, heq⟩ := settled_spec hdefs chain h
    refine ⟨nofun, fun c s hs => ?_⟩
    have he : settled defs chain source = (c, s) := Option.some.inj hs
    rw [he] at hrep hstays heq
    exact ⟨value', hrep, hstays, congrArg some heq⟩
  | cons step path ih =>
    obtain ⟨value', hrep, hstays, heq⟩ := settled_spec hdefs chain h
    rw [heq, schemaAt, schemaIn_resolve hrep hstays, sourceAt]
    cases hinside : (settled defs chain source).2.schemaIn step with
    | none => exact ⟨fun _ => rfl, nofun⟩
    | some v => exact ih _ (represents_of (inputSchema_of_source hrep hinside))

/-- A node that stays has the data of its source, resolved. -/
theorem get_data_stays {chain : List String} {source : Source} {value : Json}
    (h : Represents source value) (hstays : Stays defs chain source) {k : String}
    (hk : k ∈ DATA_KEYWORDS) :
    (resolveRefsInner (cleanDefs defs) chain value).get k =
      (source.data k).map (resolveRefsInner (cleanDefs defs) chain) := by
  have hplain : k ≠ "$ref" ∧ k ≠ "type" := by
    revert k
    decide
  cases h with
  | value _ hobj => exact get_resolve_value hobj chain k
  | node _ hnode =>
    rw [get_resolve_stays hnode hstays hplain.1 hplain.2, hnode.data k hk]
    rfl

/-- The data at a place is that of the source, resolved on the chain of the source. -/
def dataSource (defs : JsonObject) (path : List Step) (chain : List String) (source : Source)
    (k : String) : Option (List String × Json) :=
  (sourceAt defs path chain source).bind fun s => (s.2.data k).map fun v => (s.1, v)

include hdefs in
theorem dataAt_resolve (path : List Step) (chain : List String) {source : Source} {value : Json}
    (h : Represents source value) {k : String} (hk : k ∈ DATA_KEYWORDS) :
    dataAt (resolveRefsInner (cleanDefs defs) chain value) path k =
      (dataSource defs path chain source k).map fun e =>
        resolveRefsInner (cleanDefs defs) e.1 e.2 := by
  obtain ⟨hnone, hsome⟩ := schemaAt_resolve hdefs path chain h
  unfold dataAt dataSource
  cases hsource : sourceAt defs path chain source with
  | none => rw [hnone hsource]; rfl
  | some s =>
    obtain ⟨c, s⟩ := s
    obtain ⟨value', hrep, hstays, heq⟩ := hsome c s hsource
    rw [heq, Option.bind_some, Option.bind_some, get_data_stays hrep hstays hk, Option.map_map]
    rfl

end Resolve

end McpFramework.Sanitize
