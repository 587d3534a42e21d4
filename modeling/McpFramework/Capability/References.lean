import McpFramework.Capability.SchemaNodes
import McpFramework.Capability.Flattening

/-!
# Capability — References

What is left of the references of a schema. `inline_defs` drops the root's
`$defs`; it resolves the values at the root, but not the root itself.
-/

namespace McpFramework.Sanitize

open Lib BTreeMap Json

/-- No reference at this object. -/
def Unreferenced (map : JsonObject) : Prop := ∀ s, ("$ref", .str s) ∉ map

/-- A reference at this object names a definition. -/
def RefersInto (names : List String) (map : JsonObject) : Prop :=
  ∀ s, ("$ref", .str s) ∈ map → ∃ name ∈ names, s = "#/$defs/" ++ name

/-- The strings under `$ref` at an object. -/
def refsOf (map : JsonObject) : List String :=
  map.filterMap fun e => if e.1 = "$ref" then e.2.asStr else none

theorem mem_refsOf_iff (map : JsonObject) (s : String) :
    s ∈ refsOf map ↔ ("$ref", .str s) ∈ map := by
  unfold refsOf
  rw [List.mem_filterMap]
  constructor
  · rintro ⟨⟨k, v⟩, hv, he⟩
    split_ifs at he with hk
    cases v with
    | str s' =>
      cases he
      exact hk ▸ hv
    | _ => cases he
  · intro h
    exact ⟨_, h, rfl⟩

instance : DecidablePred Unreferenced := fun map =>
  decidable_of_iff (refsOf map = []) <| by
    simp only [Unreferenced, ← mem_refsOf_iff, List.eq_nil_iff_forall_not_mem]

instance (names : List String) : DecidablePred (RefersInto names) := fun map =>
  decidable_of_iff (∀ s ∈ refsOf map, ∃ name ∈ names, s = "#/$defs/" ++ name) <| by
    simp only [RefersInto, mem_refsOf_iff]

/-- The definitions at the root of a schema. -/
def defsOf (schema : JsonObject) : JsonObject :=
  ((get schema "$defs").bind Json.asObject).getD []

/-! ## Stripping -/

theorem ref_of_sanitizeSchemaNode {map : JsonObject} {s : String}
    (h : ("$ref", .str s) ∈ sanitizeSchemaNode map) : ("$ref", .str s) ∈ map := by
  rcases mem_sanitizeSchemaNode h with ⟨v, hv, -, -, he⟩ | ⟨hk, -⟩
  · rw [sanitizeKeyword_of_plain (by decide) (by decide)] at he
    exact eq_str_of_sanitize he.symm ▸ hv
  · exact absurd hk (by decide)

theorem refersInto_named {names : List String} {named : JsonObject} (h : RefersInto names named) :
    RefersInto names (mapValues (fun _ s => sanitizeValueRecursive s) named) := by
  intro s hs
  obtain ⟨v, hv, he⟩ := (mem_mapValues_iff _ _ _ _).mp hs
  exact h s (eq_str_of_sanitize he.symm ▸ hv)

/-- What `resolve_refs` is given: ordered maps whose references name definitions. -/
def Resolvable (names : List String) : Json → Prop :=
  EveryObject fun map => Sorted map ∧ RefersInto names map

theorem resolvable_sanitize {names : List String} {value : Json} (h : Resolvable names value) :
    Resolvable names (sanitizeValueRecursive value) := by
  apply everyObject_sanitize _ _ _ h
  · exact ⟨List.Pairwise.nil, nofun⟩
  · exact fun map hmap =>
      ⟨sorted_sanitizeSchemaNode hmap.1, fun s hs => hmap.2 s (ref_of_sanitizeSchemaNode hs)⟩
  · exact fun named hnamed => ⟨hnamed.1.mapValues _, refersInto_named hnamed.2⟩

/-! ## Resolving -/

theorem refersInto_mergeSiblings {names : List String} {inlined map : JsonObject}
    (hinlined : RefersInto names inlined) : RefersInto names (mergeSiblings inlined map) := by
  intro s hs
  have hfields : ∀ k v, (k, v) ∈ mergeSiblings inlined map →
      k = "$ref" → (k, v) ∈ inlined := by
    apply mergeSiblings_forall
    · exact fun k v hv _ => hv
    · exact fun k v _ href _ _ hk => absurd hk href
  exact hinlined s (hfields _ _ hs rfl)

theorem resolvable_inlineReference {names : List String} {definition : Json} {map : JsonObject}
    (hdef : Resolvable names definition) (hmap : Resolvable names (.obj map)) :
    Resolvable names (inlineReference definition map) := by
  apply everyObject_inlineReference _ _ hdef hmap
  · exact fun inlined map hinlined _ =>
      ⟨sorted_mergeSiblings hinlined.1 map, refersInto_mergeSiblings hinlined.2⟩
  · intro d s hd hs
    refine ⟨hd.1.extend s, fun r hr => ?_⟩
    rcases mem_of_mem_extend hr with hr | hr
    · exact hd.2 r hr
    · exact hs.2 r hr

section Resolve

variable {defs : JsonObject} (hdefs : ∀ name d, get defs name = some d → Resolvable (keys defs) d)
  (hstr : ∀ name s, get defs name ≠ some (.str s))

include hstr in
/-- Where no definition is a string, nothing becomes one. -/
theorem asStr_resolveRefsInner (chain : List String) (value : Json) :
    (resolveRefsInner defs chain value).asStr = value.asStr := by
  induction chain, value using resolve_induction with
  | leaf chain value harr hobj => rw [resolveRefsInner_leaf harr hobj]
  | arr chain items ih => rw [resolveRefsInner_arr]; rfl
  | plain chain map htarget ih => rw [resolveRefsInner_plain htarget]; rfl
  | truncated chain map defName definition htarget hcut ih =>
    rw [resolveRefsInner_truncated htarget hcut]
    rfl
  | inlined chain map defName definition htarget hchain hdepth ih =>
    rw [resolveRefsInner_inlined htarget hchain hdepth, ih]
    cases definition with
    | str s => exact absurd (refTarget_some htarget).2 (hstr defName s)
    | _ => rfl

/-- A node that refers into the definitions has a target or no reference. -/
theorem unreferenced_of_refTarget {map : JsonObject} (hsorted : Sorted map)
    (hrefs : RefersInto (keys defs) map) (htarget : refTarget defs map = none) :
    Unreferenced map := by
  intro s hs
  obtain ⟨name, hname, rfl⟩ := hrefs s hs
  obtain ⟨d, hd⟩ := exists_get hname
  rw [refTarget_of_get (hsorted.get_of_mem hs) hd] at htarget
  cases htarget

include hdefs hstr in
/-- No reference is left of a value that refers into the definitions, cycles or not. -/
theorem unreferenced_resolveRefsInner (chain : List String) (value : Json)
    (h : Resolvable (keys defs) value) :
    EveryObject Unreferenced (resolveRefsInner defs chain value) := by
  apply everyObject_resolve _ _ _ chain value h
  · intro chain map hmap htarget s hs
    -- A string in the result was one before.
    obtain ⟨v, hv, he⟩ := (mem_mapValues_iff _ _ _ _).mp hs
    have hsame := asStr_resolveRefsInner hstr chain v
    rw [← he] at hsame
    cases v with
    | str s' => exact unreferenced_of_refTarget hmap.1 hmap.2 htarget s' hv
    | _ => cases hsame
  · intro chain map _ s hs
    rcases mem_truncated hs with ⟨v, -, href, -⟩ | ⟨hk, -⟩
    · exact href rfl
    · exact absurd hk (by decide)
  · exact fun map name definition hdef hmap =>
      resolvable_inlineReference (hdefs name definition hdef) hmap

end Resolve

/-! ## Flattening -/

/-- A field under which no reference is left: it is not one itself. -/
def FieldUnreferenced (k : String) (v : Json) : Prop :=
  EveryObject Unreferenced v ∧ (k = "$ref" → v.asStr = none)

theorem everyObject_unreferenced_iff (map : JsonObject) :
    EveryObject Unreferenced (.obj map) ↔ ∀ k v, (k, v) ∈ map → FieldUnreferenced k v := by
  constructor
  · intro h k v hv
    refine ⟨h.field hv, ?_⟩
    rintro rfl
    cases v with
    | str s => exact absurd hv (h.node s)
    | _ => rfl
  · intro h
    apply EveryObject.obj
    · intro s hs
      cases (h _ _ hs).2 rfl
    · exact fun k v hv => (h k v hv).1

theorem fieldUnreferenced_obj {k : String} {map : JsonObject}
    (h : ∀ k v, (k, v) ∈ map → FieldUnreferenced k v) : FieldUnreferenced k (.obj map) :=
  ⟨(everyObject_unreferenced_iff map).mpr h, fun _ => rfl⟩

theorem fieldUnreferenced_str {k : String} (s : String) (h : k ≠ "$ref") :
    FieldUnreferenced k (.str s) :=
  ⟨.str s, fun hk => absurd hk h⟩

/-- A field that goes into a map leaves the others as they are. -/
theorem unreferenced_insert {map : JsonObject} {k : String} {v : Json}
    (hmap : ∀ k v, (k, v) ∈ map → FieldUnreferenced k v) (hv : FieldUnreferenced k v) :
    ∀ k' v', (k', v') ∈ insert map k v → FieldUnreferenced k' v' := by
  intro k' v' h
  rcases mem_of_mem_insert h with he | h
  · cases he
    exact hv
  · exact hmap k' v' h

/-- What the loop over the variants has gathered holds no reference. -/
structure Gathered (st : Flattening) : Prop where
  props : ∀ k v, (k, v) ∈ st.mergedProps → FieldUnreferenced k v
  tags : ∀ t ∈ st.tagEntries, EveryObject Unreferenced t.1

theorem gathered_tagStep {description : Option Json} {s : Flattening × Option Json}
    {e : String × Json} (h : Gathered s.1) (he : FieldUnreferenced e.1 e.2) :
    Gathered (tagStep description s e).1 := by
  unfold tagStep
  split
  · exact h
  · next constVal hconst =>
    dsimp only
    split_ifs
    · exact ⟨h.props, h.tags⟩
    · exact ⟨h.props, h.tags⟩
    · refine ⟨h.props, fun t ht => ?_⟩
      rcases List.mem_append.mp ht with ht | ht
      · exact h.tags t ht
      · obtain ⟨map, hmap, hget⟩ := exists_obj_of_get hconst
        rw [List.mem_singleton.mp ht]
        exact (hmap ▸ he.1).field (mem_of_get hget)

theorem unreferenced_mergeProperty {mergedProps : JsonObject} {propName : String}
    {propSchema : Json} (hmerged : ∀ k v, (k, v) ∈ mergedProps → FieldUnreferenced k v)
    (hprop : FieldUnreferenced propName propSchema) :
    ∀ k v, (k, v) ∈ mergeProperty mergedProps propName propSchema → FieldUnreferenced k v := by
  apply unreferenced_insert hmerged
  unfold mergedSchema
  split
  · exact hprop
  · next kept hkept =>
    have hold := hmerged _ _ (mem_of_get hkept)
    split
    · apply fieldUnreferenced_obj
      exact unreferenced_insert ((everyObject_unreferenced_iff _).mp hold.1)
        (fieldUnreferenced_str _ (by decide))
    · exact hold

variable (toJson : Json → String)

theorem gathered_propStep {variantTag : Option Json} {variantRequired : List String}
    {st : Flattening} {e : String × Json} (h : Gathered st) (he : FieldUnreferenced e.1 e.2) :
    Gathered (propStep toJson variantTag variantRequired st e) := by
  constructor
  · rw [(propStep_frame toJson variantTag variantRequired st e).2]
    split_ifs
    · exact h.props
    · exact unreferenced_mergeProperty h.props he
  · rw [propStep_tagEntries]
    exact h.tags

theorem gathered_foldl_tagStep {description : Option Json} (props : JsonObject)
    {s : Flattening × Option Json} (h : Gathered s.1)
    (hprops : ∀ k v, (k, v) ∈ props → FieldUnreferenced k v) :
    Gathered (props.foldl (tagStep description) s).1 := by
  induction props generalizing s with
  | nil => exact h
  | cons e props ih =>
    exact ih (gathered_tagStep h (hprops e.1 e.2 List.mem_cons_self))
      fun k v hv => hprops k v (List.mem_cons_of_mem e hv)

theorem gathered_foldl_propStep {variantTag : Option Json} {variantRequired : List String}
    (props : JsonObject) {st : Flattening} (h : Gathered st)
    (hprops : ∀ k v, (k, v) ∈ props → FieldUnreferenced k v) :
    Gathered (props.foldl (propStep toJson variantTag variantRequired) st) := by
  induction props generalizing st with
  | nil => exact h
  | cons e props ih =>
    exact ih (gathered_propStep toJson h (hprops e.1 e.2 List.mem_cons_self))
      fun k v hv => hprops k v (List.mem_cons_of_mem e hv)

theorem gathered_variantStep {st : Flattening} {variant : Json} (h : Gathered st)
    (hvariant : EveryObject Unreferenced variant) : Gathered (variantStep toJson st variant) := by
  rcases variantStep_eq toJson st variant with ⟨hstep, -⟩ | ⟨vObj, rfl, hstep⟩
  · rw [hstep]
    exact h
  · have hprops : ∀ k v, (k, v) ∈ propertiesOf (.obj vObj) → FieldUnreferenced k v := by
      intro k v hv
      unfold propertiesOf at hv
      cases hget : get vObj "properties" with
      | none => simp [hget] at hv
      | some props =>
        cases props with
        | obj vProps =>
          rw [Json.get_obj, hget] at hv
          exact (everyObject_unreferenced_iff vProps).mp (hvariant.field (mem_of_get hget)) k v hv
        | _ => simp [hget, Json.asObject] at hv
    rw [hstep]
    exact gathered_foldl_propStep toJson _ (gathered_foldl_tagStep _ h hprops) hprops

theorem gathered_foldl_variantStep (variants : List Json) {st : Flattening} (h : Gathered st)
    (hvariants : ∀ v ∈ variants, EveryObject Unreferenced v) :
    Gathered (variants.foldl (variantStep toJson) st) := by
  induction variants generalizing st with
  | nil => exact h
  | cons variant variants ih =>
    exact ih (gathered_variantStep toJson h (hvariants variant List.mem_cons_self))
      fun v hv => hvariants v (List.mem_cons_of_mem variant hv)

theorem unreferenced_discriminant {st : Flattening} (h : Gathered st) :
    ∀ k v, (k, v) ∈ discriminant toJson st → FieldUnreferenced k v := by
  have hbase : ∀ k v, (k, v) ∈
      ([("enum", .arr (st.tagEntries.map (·.1))), ("type", .str "string")] : JsonObject) →
        FieldUnreferenced k v := by
    intro k v hv
    rcases List.mem_cons.mp hv with he | hv
    · cases he
      refine ⟨.arr fun c hc => ?_, fun _ => rfl⟩
      obtain ⟨t, ht, rfl⟩ := List.mem_map.mp hc
      exact h.tags t ht
    · cases List.mem_singleton.mp hv
      exact fieldUnreferenced_str _ (by decide)
  unfold discriminant
  dsimp only
  split
  · exact unreferenced_insert hbase (fieldUnreferenced_str _ (by decide))
  · exact hbase

theorem unreferenced_describeRequired {tagKey : String} {mergedProps : JsonObject}
    {e : String × List String} (h : ∀ k v, (k, v) ∈ mergedProps → FieldUnreferenced k v) :
    ∀ k v, (k, v) ∈ describeRequired tagKey mergedProps e → FieldUnreferenced k v := by
  unfold describeRequired
  split
  · next prop hprop =>
    apply unreferenced_insert h
    apply fieldUnreferenced_obj
    have hold := h _ _ (mem_of_get hprop)
    exact unreferenced_insert ((everyObject_unreferenced_iff prop).mp hold.1)
      (fieldUnreferenced_str _ (by decide))
  · exact h

theorem unreferenced_flatProperties {st : Flattening} (h : Gathered st) :
    (∀ k v, (k, v) ∈ (flatProperties toJson st).1 → FieldUnreferenced k v) ∧
      ∀ v ∈ (flatProperties toJson st).2, EveryObject Unreferenced v := by
  unfold flatProperties
  cases st.tagKey with
  | none => exact ⟨h.props, nofun⟩
  | some tk =>
    constructor
    · have hfold : ∀ (requiredBy : BTreeMap String (List String)) (props : JsonObject),
          (∀ k v, (k, v) ∈ props → FieldUnreferenced k v) →
            ∀ k v, (k, v) ∈ requiredBy.foldl (describeRequired tk) props →
              FieldUnreferenced k v := by
        intro requiredBy
        induction requiredBy with
        | nil => exact fun props hprops => hprops
        | cons e requiredBy ih =>
          exact fun props hprops => ih _ (unreferenced_describeRequired hprops)
      apply hfold
      exact unreferenced_insert h.props (fieldUnreferenced_obj (unreferenced_discriminant toJson h))
    · intro v hv
      rw [List.mem_singleton.mp hv]
      exact .str tk

/-- The flattening brings no reference back. -/
theorem unreferenced_flattenTopLevelCombinator {schema : JsonObject}
    (h : ∀ k v, (k, v) ∈ schema → FieldUnreferenced k v) :
    ∀ k v, (k, v) ∈ flattenTopLevelCombinator toJson schema → FieldUnreferenced k v := by
  have hremoved : ∀ key k v, (k, v) ∈ remove schema key → FieldUnreferenced k v :=
    fun key k v hv => h k v ((mem_remove_iff schema _ _).mp hv).1
  unfold flattenTopLevelCombinator
  split
  · exact h
  · next combinatorKey _ =>
    split
    · next variants hvariants =>
      have hitems : ∀ v ∈ variants, EveryObject Unreferenced v :=
        fun v hv => (h _ _ (mem_of_get hvariants)).1.item hv
      have hempty : Gathered Flattening.empty := ⟨nofun, nofun⟩
      have hgathered := gathered_foldl_variantStep toJson variants hempty hitems
      obtain ⟨hprops, hrequired⟩ := unreferenced_flatProperties toJson hgathered
      have htype : FieldUnreferenced "type" (.str "object") :=
        fieldUnreferenced_str "object" (by decide)
      have hobject := unreferenced_insert (unreferenced_insert (hremoved combinatorKey) htype)
        (fieldUnreferenced_obj (k := "properties") hprops)
      unfold flattenVariants
      dsimp only
      split_ifs
      · exact fun k v hv => hobject k v ((mem_remove_iff _ _ _).mp hv).1
      · exact unreferenced_insert hobject ⟨.arr hrequired, fun _ => rfl⟩
    · exact hremoved combinatorKey

/-! ## The whole pipeline -/

/-- A string at the root goes through all passes, the keywords they write apart. -/
theorem get_sanitizeInputSchema_str {schema : JsonObject} {k s : String}
    (hget : get schema k = some (.str s)) (hk : k ∉ ["type", "properties", "required", "title",
      "$schema", "$defs", "description", "oneOf", "anyOf", "allOf"])
    (hdata : k ∉ DATA_KEYWORDS) (hnamed : k ∉ NAMED_SUBSCHEMA_CONTAINERS) :
    get (sanitizeInputSchema toJson schema).1 k = some (.str s) := by
  simp only [List.mem_cons, List.not_mem_nil, or_false, not_or] at hk
  have hframe : k ∉ ["type", "properties", "required"] := by
    simp only [List.mem_cons, List.not_mem_nil, or_false, not_or]
    tauto
  have hstrip : get (stripMetaFields schema) k = some (.str s) := by
    rw [stripMetaFields, get_sanitizeSchemaNode schema (by tauto), if_neg (by tauto), hget,
      Option.map_some, sanitizeKeyword_of_plain hdata hnamed, sanitizeValueRecursive_str]
  have hinline : get (inlineDefs (stripMetaFields schema)) k = some (.str s) := by
    unfold inlineDefs
    split
    · rw [get_mapValues, get_remove_of_ne _ (by tauto), hstrip, Option.map_some, resolveRefs,
        resolveRefsInner_str]
    · rw [get_insert_of_ne _ _ (by tauto), get_remove_of_ne _ (by tauto), hstrip]
    · exact hstrip
  have hcombinator : rootCombinator (inlineDefs (stripMetaFields schema)) ≠ some k := by
    intro hroot
    have hmem := List.mem_of_find?_eq_some hroot
    simp only [COMBINATORS, List.mem_cons, List.not_mem_nil, or_false] at hmem
    tauto
  rw [get_patched toJson schema hframe, rewriteSchema,
    get_flattenTopLevelCombinator toJson _ hframe,
    if_neg hcombinator, hinline]

theorem keys_defsOf_strip (schema : JsonObject) :
    keys (defsOf (stripMetaFields schema)) = keys (defsOf schema) ∧
      ∀ name s, get (defsOf (stripMetaFields schema)) name = some (.str s) →
        get (defsOf schema) name = some (.str s) := by
  have hdefs : get (stripMetaFields schema) "$defs" =
      (get schema "$defs").map (sanitizeKeyword "$defs") := by
    rw [stripMetaFields, get_sanitizeSchemaNode schema (by decide), if_neg (by decide)]
  unfold defsOf
  rw [hdefs]
  cases get schema "$defs" with
  | none => exact ⟨rfl, fun _ _ h => h⟩
  | some v =>
    cases v with
    | obj defs =>
      have hclean : sanitizeKeyword "$defs" (.obj defs) =
          .obj (mapValues (fun _ s => sanitizeValueRecursive s) defs) := rfl
      simp only [Option.map_some, hclean, Option.bind_some, Json.asObject, Option.getD_some,
        keys_mapValues, get_mapValues, true_and]
      intro name s h
      obtain ⟨d, hd, he⟩ := Option.map_eq_some_iff.mp h
      exact eq_str_of_sanitize he ▸ hd
    | _ =>
      -- What is no object has no definitions, before and after.
      refine ⟨rfl, ?_⟩
      intro name s h
      have hnone : (none : Option Json) = some (.str s) := h
      exact absurd hnone (Option.some_ne_none _).symm

/-- After the definitions are inlined the values at the root hold no reference. -/
theorem unreferenced_inlineDefs {schema : JsonObject}
    (hres : Resolvable (keys (defsOf schema)) (.obj schema))
    (hdefs : ∀ name s, get (defsOf schema) name ≠ some (.str s)) (hroot : Unreferenced schema) :
    ∀ k v, (k, v) ∈ inlineDefs schema → FieldUnreferenced k v := by
  unfold inlineDefs
  unfold defsOf at hres hdefs
  -- Without definitions there is nothing to refer to.
  have hnone : ∀ {map : JsonObject}, Resolvable [] (.obj map) →
      ∀ k v, (k, v) ∈ map → FieldUnreferenced k v := by
    intro map h
    apply (everyObject_unreferenced_iff map).mp
    apply h.imp
    rintro map ⟨-, hrefs⟩ s hs
    obtain ⟨name, hname, -⟩ := hrefs s hs
    cases hname
  split
  · next defs hget =>
    simp only [hget, Option.bind_some, Json.asObject, Option.getD_some] at hres hdefs
    have hdefsRes : ∀ name d, get defs name = some d → Resolvable (keys defs) d :=
      fun name d hd => (hres.field (mem_of_get hget)).field (mem_of_get hd)
    intro k w hw
    obtain ⟨v, hv, rfl⟩ := (mem_mapValues_iff _ _ _ _).mp hw
    have hin := ((mem_remove_iff schema _ _).mp hv).1
    refine ⟨unreferenced_resolveRefsInner hdefsRes hdefs [] v (hres.field hin), ?_⟩
    rintro rfl
    rw [resolveRefs, asStr_resolveRefsInner hdefs]
    cases v with
    | str s => exact absurd hin (hroot s)
    | _ => rfl
  · next v hobj hget =>
    -- Definitions that are no map are put back, and count as none.
    have hempty : keys ((Option.bind (some v) Json.asObject).getD []) = [] := by
      cases v with
      | obj defs => exact absurd rfl (hobj defs)
      | _ => rfl
    rw [hget, hempty] at hres
    have hfields := hnone hres
    exact unreferenced_insert
      (fun k v hv => hfields k v ((mem_remove_iff schema _ _).mp hv).1)
      (hfields _ _ (mem_of_get hget))
  · next hget =>
    rw [hget] at hres
    exact hnone hres

/-- The values at the root are resolved, the root itself is not: nothing points
at the dropped definitions exactly when the root was no reference. -/
theorem no_dangling_reference_iff (tool : Tool) (schema : JsonObject)
    (hwf : WellFormed (.obj schema))
    (hrefs : EveryObject (RefersInto (keys (defsOf schema))) (.obj schema))
    (hdefs : ∀ name s, get (defsOf schema) name ≠ some (.str s)) :
    EveryObject Unreferenced
        (sanitizeOne toJson { tool with inputSchema := .obj schema }).1.inputSchema ↔
      Unreferenced schema := by
  constructor
  · -- A reference at the root is left as it stands.
    intro h s hs
    have hget := get_sanitizeInputSchema_str toJson (hwf.node.get_of_mem hs)
      (by decide) (by decide) (by decide)
    exact h.node s (mem_of_get hget)
  · intro hroot
    obtain ⟨hkeys, hstrings⟩ := keys_defsOf_strip schema
    have hres :
        Resolvable (keys (defsOf (stripMetaFields schema))) (.obj (stripMetaFields schema)) := by
      rw [hkeys, stripMetaFields, ← sanitizeValueRecursive_obj]
      exact resolvable_sanitize (hwf.and hrefs)
    have hrootStrip : Unreferenced (stripMetaFields schema) :=
      fun s hs => hroot s (ref_of_sanitizeSchemaNode hs)
    have hflat := unreferenced_flattenTopLevelCombinator toJson
      (unreferenced_inlineDefs hres (fun name s h => hdefs name s (hstrings name s h)) hrootStrip)
    apply (everyObject_unreferenced_iff _).mpr
    unfold sanitizeInputSchema
    dsimp only
    have htype : FieldUnreferenced "type" (.str "object") :=
      fieldUnreferenced_str "object" (by decide)
    split_ifs
    · exact hflat
    · exact unreferenced_insert hflat htype
    · exact unreferenced_insert (unreferenced_insert hflat htype)
        (fieldUnreferenced_obj (fun _ _ h => absurd h List.not_mem_nil))

/-- Parameters that are a definition: the root refers to it. -/
def rootReference : JsonObject :=
  [("$defs", .obj [("P", .obj [("type", .str "object")])]), ("$ref", .str "#/$defs/P")]

theorem no_dangling_reference_rootReference :
    EveryObject Unreferenced
        (sanitizeOne (fun _ => "") ⟨"t", .obj rootReference, none, .null⟩).1.inputSchema ↔
      Unreferenced rootReference :=
  no_dangling_reference_iff (fun _ => "") ⟨"t", .null, none, .null⟩ rootReference
    (by decide) (by decide) (by
      intro name s h
      have hmem := mem_of_get h
      cases List.mem_singleton.mp hmem)

/-- The reference outlives the definitions it points at. -/
theorem root_reference_dangles :
    ¬ EveryObject Unreferenced
        (sanitizeOne (fun _ => "") ⟨"t", .obj rootReference, none, .null⟩).1.inputSchema := by
  decide

end McpFramework.Sanitize
