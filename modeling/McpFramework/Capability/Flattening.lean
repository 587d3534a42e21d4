import McpFramework.Capability.Sanitize

/-!
# Capability — Flattening

The root of a sanitized schema: which keywords it has, and which names its
`properties` hold after a combinator was flattened.
-/

namespace McpFramework.Sanitize

open Lib BTreeMap

variable (toJson : Json → String)

/-! ## The root, pass by pass -/

theorem get_foldTitleIntoDescription (map : JsonObject) {k : String} (hk : k ≠ "description") :
    get (foldTitleIntoDescription map) k = if k = "title" then none else get map k := by
  unfold foldTitleIntoDescription
  split
  · next htitle =>
    by_cases hkt : k = "title"
    · rw [if_pos hkt, hkt, htitle]
    · rw [if_neg hkt]
  · next titleStr _ =>
    dsimp only
    split_ifs with hblank hdescr
    · rw [get_remove, if_pos ‹_›]
    · rw [get_remove, if_neg ‹_›]
    · rw [get_insert_of_ne _ _ hk, get_remove, if_pos ‹_›]
    · rw [get_insert_of_ne _ _ hk, get_remove, if_neg ‹_›]
    · rw [get_remove, if_pos ‹_›]
    · rw [get_remove, if_neg ‹_›]
  · rw [get_remove]

/-- At a schema node the meta fields go; other keywords stay, their values cleaned. -/
theorem get_sanitizeSchemaNode (map : JsonObject) {k : String} (hk : k ≠ "description") :
    get (sanitizeSchemaNode map) k =
      if k = "title" ∨ k = "$schema" then none else (get map k).map (sanitizeKeyword k) := by
  rw [sanitizeSchemaNode, get_mapValues, get_foldTitleIntoDescription _ hk, get_remove]
  split_ifs <;> simp_all

theorem containsKey_stripMetaFields (schema : JsonObject) {k : String} (hk : k ≠ "description") :
    containsKey (stripMetaFields schema) k =
      (decide (k ≠ "title" ∧ k ≠ "$schema") && containsKey schema k) := by
  rw [stripMetaFields, containsKey, get_sanitizeSchemaNode schema hk]
  split_ifs with h
  · rw [decide_eq_false (by tauto)]
    rfl
  · rw [decide_eq_true (by tauto), Option.isSome_map]
    rfl

theorem containsKey_inlineDefs (schema : JsonObject) {k : String} (hk : k ≠ "$defs") :
    containsKey (inlineDefs schema) k = containsKey schema k := by
  unfold inlineDefs containsKey
  split
  · rw [get_mapValues, Option.isSome_map, get_remove_of_ne schema hk]
  · rw [get_insert_of_ne _ _ hk, get_remove_of_ne schema hk]
  · rfl

/-- The flattening writes three keywords and takes the combinator away. -/
theorem get_flattenVariants (schema : JsonObject) (variants : List Json) {k : String}
    (hk : k ∉ ["type", "properties", "required"]) :
    get (flattenVariants toJson schema variants) k = get schema k := by
  simp only [List.mem_cons, List.not_mem_nil, or_false, not_or] at hk
  obtain ⟨htype, hprops, hreq⟩ := hk
  unfold flattenVariants
  dsimp only
  split_ifs
  · rw [get_remove_of_ne _ hreq, get_insert_of_ne _ _ hprops, get_insert_of_ne _ _ htype]
  · rw [get_insert_of_ne _ _ hreq, get_insert_of_ne _ _ hprops, get_insert_of_ne _ _ htype]

theorem get_flattenTopLevelCombinator (schema : JsonObject) {k : String}
    (hk : k ∉ ["type", "properties", "required"]) :
    get (flattenTopLevelCombinator toJson schema) k =
      if rootCombinator schema = some k then none else get schema k := by
  unfold flattenTopLevelCombinator
  cases rootCombinator schema with
  | none => rfl
  | some combinatorKey =>
    have hremoved : get (remove schema combinatorKey) k =
        if combinatorKey = k then none else get schema k := by
      rw [get_remove]
      exact if_congr eq_comm rfl rfl
    simp only [Option.some.injEq]
    split
    · rw [get_flattenVariants toJson _ _ hk, hremoved]
    · exact hremoved

theorem get_patched (schema : JsonObject) {k : String}
    (hk : k ∉ ["type", "properties", "required"]) :
    get (sanitizeInputSchema toJson schema).1 k = get (rewriteSchema toJson schema) k := by
  simp only [List.mem_cons, List.not_mem_nil, or_false, not_or] at hk
  unfold sanitizeInputSchema
  dsimp only
  split_ifs
  · rfl
  · exact get_insert_of_ne _ _ hk.1
  · rw [get_insert_of_ne _ _ hk.2.1, get_insert_of_ne _ _ hk.1]

theorem containsKey_type (schema : JsonObject) :
    containsKey (sanitizeInputSchema toJson schema).1 "type" = true := by
  unfold sanitizeInputSchema
  dsimp only
  split_ifs with htype
  · exact htype
  · simp [containsKey]
  · simp [containsKey, get_insert]

/-! ## Shape of the root -/

/-- The root that clients take: a `type`, and none of the keywords they reject. -/
def RootShape (root : Json) : Prop :=
  (root.get "type").isSome = true ∧
    ∀ k ∈ ["$schema", "title", "oneOf", "anyOf", "allOf"], root.get k = none

/-- The first pass that sees the root already decides which combinator goes. -/
theorem rootCombinator_inlined (schema : JsonObject) :
    rootCombinator (inlineDefs (stripMetaFields schema)) = rootCombinator schema := by
  unfold rootCombinator COMBINATORS
  simp [List.find?_cons, containsKey_inlineDefs, containsKey_stripMetaFields]

theorem combinator_is_plain {k : String} (hk : k ∈ COMBINATORS) :
    k ∉ ["type", "properties", "required"] ∧
      k ∈ ["$schema", "title", "oneOf", "anyOf", "allOf"] := by
  revert k
  decide

theorem get_rewriteSchema_isSome (schema : JsonObject) {k : String} (hk : k ∈ COMBINATORS) :
    (get (rewriteSchema toJson schema) k).isSome =
      (containsKey schema k && decide (rootCombinator schema ≠ some k)) := by
  have hframe := (combinator_is_plain hk).1
  have hdefs : k ≠ "$defs" := by
    rintro rfl
    exact absurd hk (by decide)
  have hstrip : k ≠ "title" ∧ k ≠ "$schema" ∧ k ≠ "description" := by
    revert k
    decide
  rw [rewriteSchema, get_flattenTopLevelCombinator toJson _ hframe, rootCombinator_inlined]
  split_ifs with hroot
  · simp [hroot]
  · have hinlined := containsKey_inlineDefs (stripMetaFields schema) hdefs
    rw [containsKey_stripMetaFields schema hstrip.2.2,
      decide_eq_true ⟨hstrip.1, hstrip.2.1⟩, Bool.true_and] at hinlined
    simp only [ne_eq, hroot, not_false_eq_true, decide_true, Bool.and_true]
    exact hinlined

theorem get_rewriteSchema_meta (schema : JsonObject) {k : String} (hk : k ∈ ["$schema", "title"]) :
    get (rewriteSchema toJson schema) k = none := by
  have hframe : k ∉ ["type", "properties", "required"] ∧ k ≠ "$defs" ∧ k ≠ "description" := by
    revert k
    decide
  have hinlined := containsKey_inlineDefs (stripMetaFields schema) hframe.2.1
  rw [containsKey_stripMetaFields schema hframe.2.2, decide_eq_false (by simp at hk; tauto),
    Bool.false_and] at hinlined
  rw [rewriteSchema, get_flattenTopLevelCombinator toJson _ hframe.1]
  split_ifs
  · rfl
  · simpa [containsKey] using hinlined

/-- The root misses its shape where a combinator is not the one flattened. -/
theorem rootShape_iff_no_combinator (schema : JsonObject) :
    RootShape (.obj (sanitizeInputSchema toJson schema).1) ↔
      ∀ k ∈ COMBINATORS, containsKey schema k = true → rootCombinator schema = some k := by
  constructor
  · intro h k hk hin
    have hnone := h.2 k (combinator_is_plain hk).2
    rw [Json.get_obj, get_patched toJson schema (combinator_is_plain hk).1] at hnone
    have hsome := get_rewriteSchema_isSome toJson schema hk
    rw [hnone, hin] at hsome
    simpa using hsome
  · intro h
    constructor
    · exact containsKey_type toJson schema
    · intro k hk
      rw [Json.get_obj, get_patched toJson schema (by revert k; decide)]
      by_cases hmeta : k ∈ ["$schema", "title"]
      · exact get_rewriteSchema_meta toJson schema hmeta
      · have hcomb : k ∈ COMBINATORS := by
          revert k
          decide
        have hsome := get_rewriteSchema_isSome toJson schema hcomb
        rw [← Option.isNone_iff_eq_none, ← Option.not_isSome, hsome]
        cases hin : containsKey schema k with
        | false => rfl
        | true => simp [h k hcomb hin]

/-- Of the combinators at the root one is flattened, so the root has its shape
exactly when it came with no second one. -/
theorem root_shape_iff (tool : Tool) (schema : JsonObject) :
    RootShape (sanitizeOne toJson { tool with inputSchema := .obj schema }).1.inputSchema ↔
      (COMBINATORS.filter fun k => containsKey schema k).length ≤ 1 := by
  have hone : (∀ k ∈ COMBINATORS, containsKey schema k = true → rootCombinator schema = some k) ↔
      (COMBINATORS.filter fun k => containsKey schema k).length ≤ 1 := by
    unfold rootCombinator COMBINATORS
    cases h₁ : containsKey schema "oneOf" <;> cases h₂ : containsKey schema "anyOf" <;>
      cases h₃ : containsKey schema "allOf" <;> simp [h₁, h₂, h₃]
  exact (rootShape_iff_no_combinator toJson schema).trans hone

/-- An `anyOf` beside the `oneOf` that is flattened reaches the client. -/
theorem root_keeps_second_combinator :
    ¬ RootShape (sanitizeOne (fun _ => "") ⟨"add", .obj
        [("anyOf", .arr [.obj [("required", .arr [.str "a"])], .obj [("required", .arr [.str "b"])]]),
          ("oneOf", .arr [.obj [("type", .str "object")]]), ("type", .str "object")],
        none, .null⟩).1.inputSchema := by
  intro h
  exact absurd (h.2 "anyOf" (by decide)) nofun

/-! ## Names of the flat properties -/

/-- The `properties` of a schema. -/
def propertiesOf (node : Json) : JsonObject := ((node.get "properties").bind Json.asObject).getD []

/-- The variants under a combinator of the root. -/
def variantsOf (schema : JsonObject) (key : String) : List Json :=
  ((get schema key).bind Json.asArray).getD []

def isConst (propSchema : Json) : Bool := (propSchema.get "const").isSome

/-- The first property with a `const`, in variant order. -/
def discriminatorKey (variants : List Json) : Option String :=
  ((variants.flatMap propertiesOf).find? fun e => isConst e.2).map (·.1)

/-- The names a list of variants is flattened to: the discriminator, and every
property that some variant declares without a `const`. -/
def Flattened (variants : List Json) (name : String) : Prop :=
  discriminatorKey variants = some name ∨
    ∃ v ∈ variants, ∃ propSchema, (name, propSchema) ∈ propertiesOf v ∧ isConst propSchema = false

/-- The names a root declares: its own, and those of all variants at the root. -/
def Declared (schema : JsonObject) (name : String) : Prop :=
  name ∈ keys (propertiesOf (.obj schema)) ∨
    ∃ key ∈ COMBINATORS, ∃ v ∈ variantsOf schema key, name ∈ keys (propertiesOf v)

/-! ### The two passes over a variant -/

theorem tagStep_const {description : Option Json} {s : Flattening × Option Json}
    {e : String × Json} (h : isConst e.2 = false) : tagStep description s e = s := by
  unfold tagStep
  have hnone : e.2.get "const" = none := by simpa [isConst] using h
  rw [hnone]

/-- The first pass touches neither the properties nor who requires them. -/
theorem tagStep_frame (description : Option Json) (s : Flattening × Option Json)
    (e : String × Json) :
    (tagStep description s e).1.mergedProps = s.1.mergedProps ∧
      (tagStep description s e).1.requiredBy = s.1.requiredBy := by
  unfold tagStep
  split
  · exact ⟨rfl, rfl⟩
  · dsimp only
    split_ifs <;> exact ⟨rfl, rfl⟩

theorem tagStep_tagKey (description : Option Json) (s : Flattening × Option Json)
    (e : String × Json) :
    (tagStep description s e).1.tagKey =
      s.1.tagKey.or (if isConst e.2 then some e.1 else none) := by
  unfold tagStep isConst
  cases e.2.get "const" with
  | none => simp
  | some constVal =>
    cases hkey : s.1.tagKey with
    | none => simp; split_ifs <;> rfl
    | some key => simp; split_ifs <;> rfl

/-- The first pass over the properties of a variant. -/
theorem foldl_tagStep (description : Option Json) (props : JsonObject)
    (s : Flattening × Option Json) :
    (props.foldl (tagStep description) s).1.mergedProps = s.1.mergedProps ∧
      (props.foldl (tagStep description) s).1.requiredBy = s.1.requiredBy ∧
      (props.foldl (tagStep description) s).1.tagKey =
        s.1.tagKey.or ((props.find? fun e => isConst e.2).map (·.1)) := by
  induction props generalizing s with
  | nil => simp
  | cons e props ih =>
    obtain ⟨hprops, hrequired, hkey⟩ := ih (tagStep description s e)
    obtain ⟨hprops', hrequired'⟩ := tagStep_frame description s e
    rw [List.foldl_cons]
    refine ⟨hprops.trans hprops', hrequired.trans hrequired', hkey.trans ?_⟩
    rw [tagStep_tagKey, List.find?_cons]
    cases hc : isConst e.2 with
    | true => cases s.1.tagKey <;> simp
    | false => cases s.1.tagKey <;> simp

theorem mem_keys_mergeProperty (mergedProps : JsonObject) (propName : String) (propSchema : Json)
    (name : String) :
    name ∈ keys (mergeProperty mergedProps propName propSchema) ↔
      name = propName ∨ name ∈ keys mergedProps :=
  mem_keys_insert_iff mergedProps propName name _

/-- What the second pass makes of one property. -/
theorem propStep_frame (variantTag : Option Json) (variantRequired : List String)
    (st : Flattening) (e : String × Json) :
    (propStep toJson variantTag variantRequired st e).tagKey = st.tagKey ∧
      (propStep toJson variantTag variantRequired st e).mergedProps =
        if isConst e.2 then st.mergedProps else mergeProperty st.mergedProps e.1 e.2 := by
  unfold propStep isConst
  by_cases hconst : (e.2.get "const").isSome = true
  · simp only [if_pos hconst, and_self]
  · cases variantTag with
    | none => simp only [if_neg hconst, and_self]
    | some tag =>
      by_cases hreq : variantRequired.contains e.1 = true
      · simp only [if_neg hconst, if_pos hreq, and_self]
      · simp only [if_neg hconst, if_neg hreq, and_self]

theorem propStep_tagEntries (variantTag : Option Json) (variantRequired : List String)
    (st : Flattening) (e : String × Json) :
    (propStep toJson variantTag variantRequired st e).tagEntries = st.tagEntries := by
  unfold propStep
  by_cases hconst : (e.2.get "const").isSome = true
  · simp only [if_pos hconst]
  · cases variantTag with
    | none => simp only [if_neg hconst]
    | some tag =>
      by_cases hreq : variantRequired.contains e.1 = true
      · simp only [if_neg hconst, if_pos hreq]
      · simp only [if_neg hconst, if_neg hreq]

theorem foldl_propStep (variantTag : Option Json) (variantRequired : List String)
    (props : JsonObject) (st : Flattening) :
    (props.foldl (propStep toJson variantTag variantRequired) st).tagKey = st.tagKey ∧
      ∀ name,
        name ∈ keys (props.foldl (propStep toJson variantTag variantRequired) st).mergedProps ↔
          name ∈ keys st.mergedProps ∨
            ∃ propSchema, (name, propSchema) ∈ props ∧ isConst propSchema = false := by
  induction props generalizing st with
  | nil => simp
  | cons e props ih =>
    obtain ⟨hkey, hnames⟩ := ih (propStep toJson variantTag variantRequired st e)
    obtain ⟨hkey', hprops'⟩ := propStep_frame toJson variantTag variantRequired st e
    rw [List.foldl_cons]
    refine ⟨hkey.trans hkey', fun name => ?_⟩
    rw [hnames, hprops']
    obtain ⟨propName, propSchema⟩ := e
    cases hc : isConst propSchema with
    | true => grind
    | false =>
      simp only [Bool.false_eq_true, if_false, mem_keys_mergeProperty]
      grind

/-! ### One property -/

theorem get_mergeProperty (mergedProps : JsonObject) (propName : String) (propSchema : Json)
    (name : String) :
    get (mergeProperty mergedProps propName propSchema) name =
      if name = propName then some (mergedSchema (get mergedProps propName) propSchema)
      else get mergedProps name :=
  get_insert mergedProps propName name _

/-- The schema of a property that is no discriminator. -/
def plainProperty (props : JsonObject) (name : String) : Option Json :=
  (get props name).filter fun schema => !isConst schema

theorem plainProperty_cons (e : String × Json) (props : JsonObject) (name : String) :
    plainProperty (e :: props) name =
      if e.1 = name then (if isConst e.2 then none else some e.2)
      else plainProperty props name := by
  unfold plainProperty
  rw [get_cons]
  split_ifs <;> simp_all [Option.filter]

theorem plainProperty_absent {props : JsonObject} {name : String} (h : name ∉ keys props) :
    plainProperty props name = none := by
  unfold plainProperty
  rw [(get_eq_none_iff props name).mpr h, Option.filter_none]

theorem propStep_const {variantTag : Option Json} {variantRequired : List String} {st : Flattening}
    {e : String × Json} (h : isConst e.2 = true) :
    propStep toJson variantTag variantRequired st e = st := by
  unfold propStep
  exact if_pos h

/-- What the second pass over a variant makes of the properties. -/
theorem foldl_propStep_mergedProps (variantTag : Option Json) (variantRequired : List String)
    {props : JsonObject} (hsorted : Sorted props) (st : Flattening) (name : String) :
    get (props.foldl (propStep toJson variantTag variantRequired) st).mergedProps name =
      ((plainProperty props name).map (mergedSchema (get st.mergedProps name))).or
        (get st.mergedProps name) := by
  induction props generalizing st with
  | nil => simp [plainProperty]
  | cons e props ih =>
    obtain ⟨hhead, htail⟩ := List.pairwise_cons.mp hsorted
    have hlater : e.1 ∉ keys props := by
      intro h
      obtain ⟨e', he', hk⟩ := List.mem_map.mp h
      exact (hhead e' he').ne hk.symm
    have hmerged := (propStep_frame toJson variantTag variantRequired st e).2
    rw [List.foldl_cons, plainProperty_cons, ih htail, hmerged]
    cases hconst : isConst e.2 with
    | true =>
      by_cases hname : e.1 = name
      · subst hname
        simp [plainProperty_absent hlater]
      · simp only [if_neg hname, if_true]
    | false =>
      rw [if_neg Bool.false_ne_true, get_mergeProperty]
      by_cases hname : e.1 = name
      · subst hname
        simp [plainProperty_absent hlater]
      · rw [if_neg hname, if_neg fun h => hname h.symm]

/-! ### All variants -/

theorem variantStep_eq (st : Flattening) (variant : Json) :
    variantStep toJson st variant = st ∧ propertiesOf variant = [] ∨
      ∃ vObj, variant = .obj vObj ∧
        variantStep toJson st variant =
          (propertiesOf variant).foldl
            (propStep toJson
              ((propertiesOf variant).foldl (tagStep (get vObj "description")) (st, none)).2
              (requiredNames vObj))
            ((propertiesOf variant).foldl (tagStep (get vObj "description")) (st, none)).1 := by
  cases variant with
  | obj vObj =>
    cases hprops : get vObj "properties" with
    | none => exact Or.inl ⟨by simp only [variantStep, hprops], by simp [propertiesOf, hprops]⟩
    | some props =>
      have hget : propertiesOf (.obj vObj) = props.asObject.getD [] := by
        simp [propertiesOf, hprops]
      cases props with
      | obj vProps =>
        rw [hget]
        exact Or.inr ⟨vObj, rfl, by simp only [variantStep, hprops]; rfl⟩
      | _ => exact Or.inl ⟨by simp only [variantStep, hprops], hget⟩
  | _ => exact Or.inl ⟨rfl, rfl⟩

theorem variantStep_names (st : Flattening) (variant : Json) :
    (variantStep toJson st variant).tagKey =
        st.tagKey.or (((propertiesOf variant).find? fun e => isConst e.2).map (·.1)) ∧
      ∀ name, name ∈ keys (variantStep toJson st variant).mergedProps ↔
        name ∈ keys st.mergedProps ∨
          ∃ propSchema, (name, propSchema) ∈ propertiesOf variant ∧ isConst propSchema = false := by
  rcases variantStep_eq toJson st variant with ⟨hstep, hprops⟩ | ⟨vObj, -, hstep⟩
  · simp [hstep, hprops]
  · obtain ⟨hmerged, -, htag⟩ :=
      foldl_tagStep (get vObj "description") (propertiesOf variant) (st, none)
    obtain ⟨hkey, hnames⟩ := foldl_propStep toJson
      ((propertiesOf variant).foldl (tagStep (get vObj "description")) (st, none)).2
      (requiredNames vObj) (propertiesOf variant)
      ((propertiesOf variant).foldl (tagStep (get vObj "description")) (st, none)).1
    rw [hstep]
    constructor
    · rw [hkey, htag]
    · intro name
      rw [hnames, hmerged]

theorem foldl_variantStep (variants : List Json) (st : Flattening) :
    (variants.foldl (variantStep toJson) st).tagKey = st.tagKey.or (discriminatorKey variants) ∧
      ∀ name, name ∈ keys (variants.foldl (variantStep toJson) st).mergedProps ↔
        name ∈ keys st.mergedProps ∨
          ∃ v ∈ variants, ∃ propSchema,
            (name, propSchema) ∈ propertiesOf v ∧ isConst propSchema = false := by
  induction variants generalizing st with
  | nil => simp [discriminatorKey]
  | cons variant variants ih =>
    obtain ⟨hkey, hnames⟩ := ih (variantStep toJson st variant)
    obtain ⟨hkey', hnames'⟩ := variantStep_names toJson st variant
    rw [List.foldl_cons]
    constructor
    · rw [hkey, hkey', Option.or_assoc]
      congr 1
      unfold discriminatorKey
      rw [List.flatMap_cons, List.find?_append]
      cases (propertiesOf variant).find? fun e => isConst e.2 <;> simp
    · intro name
      rw [hnames, hnames']
      simp only [List.mem_cons, exists_eq_or_imp, or_assoc]

theorem mem_keys_describeRequired (tagKey : String) (mergedProps : JsonObject)
    (e : String × List String) (name : String) :
    name ∈ keys (describeRequired tagKey mergedProps e) ↔ name ∈ keys mergedProps := by
  unfold describeRequired
  split
  · next hprop =>
    rw [mem_keys_insert_iff]
    constructor
    · rintro (rfl | h)
      · exact mem_keys_of_get hprop
      · exact h
    · exact Or.inr
  · rfl

theorem mem_keys_flatProperties (st : Flattening) (name : String) :
    name ∈ keys (flatProperties toJson st).1 ↔
      st.tagKey = some name ∨ name ∈ keys st.mergedProps := by
  unfold flatProperties
  cases st.tagKey with
  | none => simp
  | some tk =>
    have hfold : ∀ (requiredBy : BTreeMap String (List String)) (props : JsonObject),
        name ∈ keys (requiredBy.foldl (describeRequired tk) props) ↔ name ∈ keys props := by
      intro requiredBy
      induction requiredBy with
      | nil => simp
      | cons e requiredBy ih =>
        intro props
        rw [List.foldl_cons, ih, mem_keys_describeRequired]
    rw [hfold, mem_keys_insert_iff, Option.some.injEq, eq_comm]

theorem flatten_eq {schema : JsonObject} {key : String} {variants : List Json}
    (hroot : rootCombinator schema = some key) (hvariants : get schema key = some (.arr variants)) :
    flattenTopLevelCombinator toJson schema =
      flattenVariants toJson (remove schema key) variants := by
  simp only [flattenTopLevelCombinator, hroot, hvariants]

theorem propertiesOf_flattenVariants (schema : JsonObject) (variants : List Json) :
    propertiesOf (.obj (flattenVariants toJson schema variants)) =
      (flatProperties toJson (variants.foldl (variantStep toJson) Flattening.empty)).1 := by
  unfold flattenVariants propertiesOf
  simp only [Json.get_obj]
  split_ifs
  · rw [get_remove_of_ne _ (by decide), get_insert_self]
    rfl
  · rw [get_insert_of_ne _ _ (by decide), get_insert_self]
    rfl

/-- The fields of a flat root: the three that are written, and the root's own. -/
theorem mem_flattenVariants {schema : JsonObject} {variants : List Json} {k : String} {w : Json}
    (h : (k, w) ∈ flattenVariants toJson schema variants) :
    (k = "type" ∧ w = .str "object") ∨
      (k = "properties" ∧ w = .obj (flatProperties toJson
        (variants.foldl (variantStep toJson) Flattening.empty)).1) ∨
      (k = "required" ∧ w = .arr (flatProperties toJson
        (variants.foldl (variantStep toJson) Flattening.empty)).2) ∨
      (k, w) ∈ schema := by
  have hobject : ∀ props,
      (k, w) ∈ insert (insert schema "type" (.str "object")) "properties" props →
      (k = "type" ∧ w = .str "object") ∨ (k = "properties" ∧ w = props) ∨ (k, w) ∈ schema := by
    intro props hin
    rcases mem_of_mem_insert hin with he | hin
    · exact Or.inr (Or.inl (Prod.mk.inj he))
    · rcases mem_of_mem_insert hin with he | hin
      · exact Or.inl (Prod.mk.inj he)
      · exact Or.inr (Or.inr hin)
  unfold flattenVariants at h
  dsimp only at h
  split_ifs at h
  · rcases hobject _ ((mem_remove_iff _ _ _).mp h).1 with h | h | h
    · exact Or.inl h
    · exact Or.inr (Or.inl h)
    · exact Or.inr (Or.inr (Or.inr h))
  · rcases mem_of_mem_insert h with he | h
    · exact Or.inr (Or.inr (Or.inl (Prod.mk.inj he)))
    · rcases hobject _ h with h | h | h
      · exact Or.inl h
      · exact Or.inr (Or.inl h)
      · exact Or.inr (Or.inr (Or.inr h))

/-- The flat root has the names its variants are flattened to, and no others. -/
theorem mem_flattened_iff {schema : JsonObject} {key : String} {variants : List Json}
    (hroot : rootCombinator schema = some key) (hvariants : get schema key = some (.arr variants))
    (name : String) :
    name ∈ keys (propertiesOf (.obj (flattenTopLevelCombinator toJson schema))) ↔
      Flattened variants name := by
  obtain ⟨hkey, hnames⟩ := foldl_variantStep toJson variants Flattening.empty
  rw [flatten_eq toJson hroot hvariants, propertiesOf_flattenVariants,
    mem_keys_flatProperties, hkey,
    hnames]
  simp [Flattening.empty, Flattened, keys]

/-- The flattening keeps every declared name exactly when the root has no
property of its own, a second combinator no variant, and a variant no second
`const`, under a name that the variants do not declare in another way. -/
theorem flatten_keeps_names_iff (schema : JsonObject) (key : String) (variants : List Json)
    (hroot : rootCombinator schema = some key)
    (hvariants : get schema key = some (.arr variants)) :
    (∀ name, Declared schema name →
        name ∈ keys (propertiesOf (.obj (flattenTopLevelCombinator toJson schema)))) ↔
      (∀ name ∈ keys (propertiesOf (.obj schema)), Flattened variants name) ∧
        (∀ other ∈ COMBINATORS, other ≠ key → ∀ v ∈ variantsOf schema other,
          ∀ name ∈ keys (propertiesOf v), Flattened variants name) ∧
        ∀ v ∈ variants, ∀ name propSchema, (name, propSchema) ∈ propertiesOf v →
          isConst propSchema = true → Flattened variants name := by
  simp only [mem_flattened_iff toJson hroot hvariants]
  have hkey : key ∈ COMBINATORS := List.mem_of_find?_eq_some hroot
  have hown : variantsOf schema key = variants := by
    simp [variantsOf, hvariants, Json.asArray]
  constructor
  · intro h
    refine ⟨fun name hname => h name (Or.inl hname), ?_, ?_⟩
    · intro other hother _ v hv name hname
      exact h name (Or.inr ⟨other, hother, v, hv, hname⟩)
    · intro v hv name propSchema hprop _
      apply h name
      right
      rw [← hown] at hv
      exact ⟨key, hkey, v, hv, List.mem_map.mpr ⟨_, hprop, rfl⟩⟩
  · rintro ⟨hroots, hothers, hconsts⟩ name (hname | ⟨other, hother, v, hv, hname⟩)
    · exact hroots name hname
    · by_cases hsame : other = key
      · subst hsame
        rw [hown] at hv
        obtain ⟨⟨name, propSchema⟩, hprop, rfl⟩ := List.mem_map.mp hname
        cases hc : isConst propSchema with
        | true => exact hconsts v hv name propSchema hprop hc
        | false => exact Or.inr ⟨v, hv, propSchema, hprop, hc⟩
      · exact hothers other hother hsame v hv name hname

/-- A flattened enum: the properties of the struct around it are at the root. -/
def flattenedEnum : JsonObject :=
  [("oneOf", .arr [.obj [("properties",
      .obj [("kind", .obj [("const", .str "a")]), ("x", .obj [("type", .str "string")])])]]),
    ("properties", .obj [("id", .obj [("type", .str "string")])]), ("type", .str "object")]

theorem flatten_keeps_names_flattenedEnum :
    (∀ name, Declared flattenedEnum name →
        name ∈ keys (propertiesOf (.obj (flattenTopLevelCombinator (fun _ => "") flattenedEnum)))) ↔
      (∀ name ∈ keys (propertiesOf (.obj flattenedEnum)),
          Flattened (variantsOf flattenedEnum "oneOf") name) ∧
        (∀ other ∈ COMBINATORS, other ≠ "oneOf" → ∀ v ∈ variantsOf flattenedEnum other,
          ∀ name ∈ keys (propertiesOf v), Flattened (variantsOf flattenedEnum "oneOf") name) ∧
        ∀ v ∈ variantsOf flattenedEnum "oneOf", ∀ name propSchema,
          (name, propSchema) ∈ propertiesOf v → isConst propSchema = true →
            Flattened (variantsOf flattenedEnum "oneOf") name :=
  flatten_keeps_names_iff (fun _ => "") flattenedEnum "oneOf" _ rfl rfl

/-- The property beside the enum is gone. -/
theorem flatten_loses_root_property :
    ¬ ∀ name, Declared flattenedEnum name →
        name ∈ keys (propertiesOf (.obj (flattenTopLevelCombinator (fun _ => "") flattenedEnum))) := by
  intro h
  exact absurd (h "id" (Or.inl (by decide))) (by decide)

end McpFramework.Sanitize
