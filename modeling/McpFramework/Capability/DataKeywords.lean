import McpFramework.Capability.Provenance

/-!
# Capability — DataKeywords

What the whole pipeline does to the values of `enum`, `const`, `default` and
`examples`. Stripping knows them and leaves them alone; `resolve_refs` walks
into them as into schemas, so a reference in plain data that happens to name a
definition is resolved.
-/

namespace McpFramework.Sanitize

open Lib BTreeMap Json

/-! ## Data under the second pass -/

/-- No reference in a value finds a definition. -/
def NoReference (defs : JsonObject) : Json → Prop :=
  EveryObject fun map => refTarget defs map = none

instance (defs : JsonObject) (value : Json) : Decidable (NoReference defs value) :=
  decidable_of_iff (EveryObject (fun map => (refTarget defs map).isNone = true) value) <| by
    unfold NoReference
    simp only [Option.isNone_iff_eq_none]

theorem refTarget_cleanDefs (defs map : JsonObject) :
    refTarget (cleanDefs defs) map = none ↔ refTarget defs map = none := by
  rw [refTarget_eq, refTarget_eq]
  cases (get map "$ref").bind Json.asStr with
  | none => rfl
  | some refStr =>
    simp only [Option.bind_some]
    cases stripPrefix? refStr "#/$defs/" with
    | none => rfl
    | some name => simp [cleanDefs, get_mapValues]

theorem noReference_cleanDefs (defs : JsonObject) (value : Json) :
    NoReference (cleanDefs defs) value ↔ NoReference defs value := by
  constructor
  · exact fun h => h.imp fun map => (refTarget_cleanDefs defs map).mp
  · exact fun h => h.imp fun map => (refTarget_cleanDefs defs map).mpr

theorem resolve_of_noReference {defs : JsonObject} (chain : List String) {value : Json}
    (h : NoReference defs value) : resolveRefsInner defs chain value = value := by
  induction value using Json.walk with
  | arr items ih =>
    rw [resolveRefsInner_arr]
    congr 1
    calc items.map (resolveRefsInner defs chain) = items.map id :=
          List.map_congr_left fun v hv => ih v hv (h.item hv)
      _ = items := List.map_id items
  | obj map ih =>
    rw [resolveRefsInner_plain h.node]
    congr 1
    calc mapValues (fun _ v => resolveRefsInner defs chain v) map = mapValues (fun _ v => v) map :=
          mapValues_congr fun k v hv => ih k v hv (h.field hv)
      _ = map := by simp [mapValues]
  | _ => rw [resolveRefsInner_leaf rfl rfl]

section Resolve

variable {defs : JsonObject} (hstr : ∀ name s, get defs name ≠ some (.str s))

include hstr in
/-- Whatever is given to it, the pass leaves no reference that it could follow. -/
theorem noReference_resolve (chain : List String) (value : Json) :
    NoReference defs (resolveRefsInner defs chain value) := by
  have hsame : ∀ chain map, refTarget defs
      (mapValues (fun _ v => resolveRefsInner defs chain v) map) = refTarget defs map := by
    intro chain map
    rw [refTarget_eq, refTarget_eq, get_mapValues]
    cases get map "$ref" with
    | none => rfl
    | some v => rw [Option.map_some, Option.bind_some, asStr_resolveRefsInner hstr]; rfl
  apply everyObject_resolve _ _ (fun _ _ _ _ _ => .of_forall (fun _ => trivial) _) chain value
    (.of_forall (fun _ => trivial) value)
  · intro chain map _ htarget
    rw [hsame, htarget]
  · intro chain map _
    have hgone : get (truncateToPermissiveObject map) "$ref" = none := by
      simp only [truncateToPermissiveObject]
      split_ifs
      · exact get_remove_self _ _
      · rw [get_insert_of_ne _ _ (by decide), get_remove_self]
    rw [hsame, refTarget_eq, hgone]
    rfl

include hstr in
theorem resolve_eq_self_iff (chain : List String) (value : Json) :
    resolveRefsInner defs chain value = value ↔ NoReference defs value := by
  constructor
  · intro h
    rw [← h]
    exact noReference_resolve hstr chain value
  · exact resolve_of_noReference chain

end Resolve

/-! ## Data under the flattening -/

/-- The same schema, but for its description. -/
def Redescribed (old new : Json) : Prop :=
  new.asArray = old.asArray ∧ ∀ k, k ≠ "description" → new.get k = old.get k

theorem Redescribed.refl (v : Json) : Redescribed v v := ⟨rfl, fun _ _ => rfl⟩

theorem Redescribed.trans {a b c : Json} (h : Redescribed a b) (h' : Redescribed b c) :
    Redescribed a c :=
  ⟨h'.1.trans h.1, fun k hk => (h'.2 k hk).trans (h.2 k hk)⟩

theorem redescribed_insert (map : JsonObject) (v : Json) :
    Redescribed (.obj map) (.obj (insert map "description" v)) :=
  ⟨rfl, fun _ hk => get_insert_of_ne map v hk⟩

theorem redescribed_mergedSchema (kept propSchema : Json) :
    Redescribed kept (mergedSchema (some kept) propSchema) := by
  simp only [mergedSchema]
  split
  · exact redescribed_insert _ _
  · exact .refl _

theorem schemaIn_redescribed {old new : Json} (h : Redescribed old new) (step : Step) :
    schemaIn new step = schemaIn old step := by
  cases step with
  | keyword k =>
    simp only [schemaIn]
    split_ifs with hk
    · apply h.2
      rintro rfl
      exact absurd hk (by decide)
    · rfl
  | member k n =>
    simp only [schemaIn]
    split_ifs with hk
    · rw [h.2]
      rintro rfl
      exact absurd hk (by decide)
    · rfl
  | item i => simp only [schemaIn, h.1]

theorem dataAt_redescribed {old new : Json} (h : Redescribed old new) (path : List Step)
    {k : String} (hk : k ∈ DATA_KEYWORDS) : dataAt new path k = dataAt old path k := by
  cases path with
  | nil =>
    apply h.2
    rintro rfl
    exact absurd hk (by decide)
  | cons step path => simp only [dataAt, schemaAt, schemaIn_redescribed h]

section Flatten

variable (toJson : Json → String)

theorem get_mergedProps_variantStep {variant : Json} (hsorted : Sorted (propertiesOf variant))
    (st : Flattening) (name : String) :
    get (variantStep toJson st variant).mergedProps name =
      ((plainProperty (propertiesOf variant) name).map (mergedSchema (get st.mergedProps name))).or
        (get st.mergedProps name) := by
  rcases variantStep_eq toJson st variant with ⟨hstep, hprops⟩ | ⟨vObj, -, hstep⟩
  · rw [hstep, hprops]
    rfl
  · have hframe := (foldl_tagStep (get vObj "description") (propertiesOf variant) (st, none)).1
    rw [hstep, foldl_propStep_mergedProps toJson _ _ hsorted, hframe]

/-- The first variant that declares a property without a `const`. -/
def firstPlain (variants : List Json) (name : String) : Option Json :=
  variants.findSome? fun v => plainProperty (propertiesOf v) name

/-- A property keeps its first schema. -/
theorem mergedProps_foldl (variants : List Json)
    (hsorted : ∀ v ∈ variants, Sorted (propertiesOf v)) (st : Flattening) {name : String}
    {first : Option Json} (h : Option.Rel Redescribed first (get st.mergedProps name)) :
    Option.Rel Redescribed (first.or (firstPlain variants name))
      (get (variants.foldl (variantStep toJson) st).mergedProps name) := by
  induction variants generalizing st first with
  | nil => simpa [firstPlain] using h
  | cons variant variants ih =>
    have hrest := fun v hv => hsorted v (List.mem_cons_of_mem variant hv)
    have hstep : Option.Rel Redescribed
        (first.or (plainProperty (propertiesOf variant) name))
        (get (variantStep toJson st variant).mergedProps name) := by
      rw [get_mergedProps_variantStep toJson (hsorted variant List.mem_cons_self)]
      cases hplain : plainProperty (propertiesOf variant) name with
      | none => simpa using h
      | some propSchema =>
        generalize get st.mergedProps name = slot at h
        cases h with
        | none => exact .some (.refl propSchema)
        | some h => exact .some (h.trans (redescribed_mergedSchema _ propSchema))
    have hall := ih hrest _ hstep
    have hfirst : firstPlain (variant :: variants) name =
        (plainProperty (propertiesOf variant) name).or (firstPlain variants name) := by
      unfold firstPlain
      rw [List.findSome?_cons]
      cases plainProperty (propertiesOf variant) name <;> rfl
    rw [List.foldl_cons, hfirst, ← Option.or_assoc]
    exact hall

theorem redescribed_describeRequired (tagKey : String) (props : JsonObject)
    (e : String × List String) (name : String) :
    Option.Rel Redescribed (get props name) (get (describeRequired tagKey props e) name) := by
  have hrefl : ∀ o : Option Json, Option.Rel Redescribed o o := by
    intro o
    cases o with
    | none => exact .none
    | some v => exact .some (.refl v)
  unfold describeRequired
  split
  · next prop hprop =>
    rw [get_insert]
    split_ifs with hname
    · rw [hname, hprop]
      exact .some (redescribed_insert _ _)
    · exact hrefl _
  · exact hrefl _

theorem redescribed_foldl_describeRequired (tagKey : String)
    (requiredBy : BTreeMap String (List String)) {first : Option Json} {name : String}
    (props : JsonObject) (h : Option.Rel Redescribed first (get props name)) :
    Option.Rel Redescribed first (get (requiredBy.foldl (describeRequired tagKey) props) name) := by
  induction requiredBy generalizing props with
  | nil => exact h
  | cons e requiredBy ih =>
    apply ih
    have hstep := redescribed_describeRequired tagKey props e name
    generalize get (describeRequired tagKey props e) name = slot at hstep
    generalize get props name = old at h hstep
    cases h with
    | none =>
      cases hstep
      exact .none
    | some h =>
      cases hstep with
      | some h' => exact .some (h.trans h')

/-- The flat properties, the discriminator apart, are the variants' own. -/
theorem flatProperties_first (variants : List Json)
    (hsorted : ∀ v ∈ variants, Sorted (propertiesOf v)) {name : String}
    (hname : discriminatorKey variants ≠ some name) :
    Option.Rel Redescribed (firstPlain variants name)
      (get (flatProperties toJson
        (variants.foldl (variantStep toJson) Flattening.empty)).1 name) := by
  have hmerged := mergedProps_foldl toJson variants hsorted Flattening.empty
    (show Option.Rel Redescribed none (get Flattening.empty.mergedProps name) from .none)
  have hkey := (foldl_variantStep toJson variants Flattening.empty).1
  rw [Option.none_or] at hmerged
  generalize variants.foldl (variantStep toJson) Flattening.empty = st at hmerged hkey
  replace hkey : st.tagKey = discriminatorKey variants := hkey
  unfold flatProperties
  cases htag : st.tagKey with
  | none => exact hmerged
  | some tk =>
    have hne : name ≠ tk := by
      rintro rfl
      exact hname (hkey ▸ htag)
    apply redescribed_foldl_describeRequired
    rw [get_insert_of_ne _ _ hne]
    exact hmerged

theorem schemaIn_flattenVariants (schema : JsonObject) (variants : List Json) (name : String) :
    schemaIn (.obj (flattenVariants toJson schema variants)) (.member "properties" name) =
      get (flatProperties toJson
        (variants.foldl (variantStep toJson) Flattening.empty)).1 name := by
  have hprops : Json.get (.obj (flattenVariants toJson schema variants)) "properties" =
      some (.obj (flatProperties toJson
        (variants.foldl (variantStep toJson) Flattening.empty)).1) := by
    unfold flattenVariants
    simp only [Json.get_obj]
    split_ifs
    · rw [get_remove_of_ne _ (by decide), get_insert_self]
    · rw [get_insert_of_ne _ _ (by decide), get_insert_self]
  rw [schemaIn, if_pos (by decide), hprops]
  rfl

/-- The data in a flat property is the data in the variant it came from. -/
theorem dataAt_flattenVariants (schema : JsonObject) (variants : List Json)
    (hsorted : ∀ v ∈ variants, Sorted (propertiesOf v)) {name : String}
    (hname : discriminatorKey variants ≠ some name) (path : List Step) {k : String}
    (hk : k ∈ DATA_KEYWORDS) :
    dataAt (.obj (flattenVariants toJson schema variants)) (.member "properties" name :: path) k =
      (firstPlain variants name).bind fun w => dataAt w path k := by
  have hfirst := flatProperties_first toJson variants hsorted hname
  rw [dataAt, schemaAt, schemaIn_flattenVariants]
  generalize get (flatProperties toJson (variants.foldl (variantStep toJson) Flattening.empty)).1
    name = slot at hfirst
  generalize firstPlain variants name = first at hfirst
  cases hfirst with
  | none => rfl
  | some h => exact dataAt_redescribed h path hk

/-- Under the discriminator there is no schema. -/
theorem schemaIn_discriminant (st : Flattening) (step : Step) :
    schemaIn (.obj (discriminant toJson st)) step = none := by
  have hkeys : ∀ k, holdsSchemas k = true ∨ k ∈ NAMED_SUBSCHEMA_CONTAINERS →
      get (discriminant toJson st) k = none := by
    intro k hk
    have hplain : k ≠ "enum" ∧ k ≠ "type" ∧ k ≠ "description" := by
      rcases hk with hk | hk
      · obtain ⟨hdata, -, htext⟩ := (holdsSchemas_iff k).mp hk
        simp only [DATA_KEYWORDS, TEXT_KEYWORDS, List.mem_cons, List.not_mem_nil, or_false,
          not_or] at hdata htext
        tauto
      · revert k
        decide
    unfold discriminant
    simp only
    split
    · rw [get_insert_of_ne _ _ hplain.2.2]
      simp [get_cons, hplain.1.symm, hplain.2.1.symm]
    · simp [get_cons, hplain.1.symm, hplain.2.1.symm]
  cases step with
  | keyword k =>
    simp only [schemaIn]
    split_ifs with hk
    · exact hkeys k (Or.inl hk)
    · rfl
  | member k n =>
    simp only [schemaIn]
    split_ifs with hk
    · rw [Json.get_obj, hkeys k (Or.inr (by simpa using hk))]
      rfl
    · rfl
  | item i => rfl

/-- The property of the discriminator is the one that was made up for it. -/
theorem flatProperties_discriminator (st : Flattening) {tk : String} (htag : st.tagKey = some tk) :
    Option.Rel Redescribed (some (.obj (discriminant toJson st)))
      (get (flatProperties toJson st).1 tk) := by
  unfold flatProperties
  rw [htag]
  apply redescribed_foldl_describeRequired
  rw [get_insert_self]
  exact .some (.refl _)

theorem schemaIn_flat_discriminator (schema : JsonObject) {variants : List Json} {name : String}
    (hname : discriminatorKey variants = some name) :
    ∃ w, schemaIn (.obj (flattenVariants toJson schema variants)) (.member "properties" name) =
        some w ∧ ∀ step, schemaIn w step = none := by
  have hkey := (foldl_variantStep toJson variants Flattening.empty).1
  have hflat := flatProperties_discriminator toJson
    (variants.foldl (variantStep toJson) Flattening.empty) (hkey.trans hname)
  rw [schemaIn_flattenVariants]
  generalize get (flatProperties toJson (variants.foldl (variantStep toJson) Flattening.empty)).1
    name = slot at hflat
  cases hflat with
  | some h =>
    refine ⟨_, rfl, fun step => ?_⟩
    rw [schemaIn_redescribed h, schemaIn_discriminant]

end Flatten

/-! ## The root -/

theorem wellFormed_resolve {defs : JsonObject}
    (hdefs : ∀ name d, get defs name = some d → WellFormed d) (chain : List String) (value : Json)
    (h : WellFormed value) : WellFormed (resolveRefsInner defs chain value) := by
  apply everyObject_resolve _ _ _ chain value h
  · exact fun chain map hmap _ => hmap.mapValues _
  · exact fun chain map hmap => (sorted_truncateToPermissiveObject hmap).mapValues _
  · exact fun map name definition hdef hmap =>
      everyObject_inlineReference (fun _ _ hs _ => sorted_mergeSiblings hs _)
        (fun _ _ hs _ => Sorted.extend hs _) (hdefs name definition hdef) hmap

theorem inputSchema_defsOf {schema : JsonObject} (h : InputSchema (.obj schema)) :
    ∀ name d, get (defsOf schema) name = some d → InputSchema d := by
  intro name d hd
  have hin : schemaIn (.obj schema) (.member "$defs" name) = some d := by
    rw [schemaIn, if_pos (by decide), Json.get_obj]
    unfold defsOf at hd
    cases hdefs : get schema "$defs" with
    | none =>
      rw [hdefs] at hd
      cases hd
    | some v =>
      rw [hdefs] at hd
      cases v with
      | obj defs => exact hd
      | _ => cases hd
  exact h.inside hin

/-- What the second pass makes of the root: its values are resolved. -/
theorem get_inlineDefs_strip (schema : JsonObject) {k : String} (hk : k ≠ "$defs") :
    get (inlineDefs (stripMetaFields schema)) k =
      (get (sanitizeSchemaNode schema) k).map
        (resolveRefsInner (cleanDefs (defsOf schema)) []) := by
  have hnone : ∀ v, resolveRefsInner (cleanDefs []) [] v = v := by
    intro v
    apply resolve_of_noReference
    induction v using Json.walk with
    | arr items ih => exact .arr ih
    | obj map ih =>
      refine .obj ?_ ih
      rw [refTarget_eq]
      cases (get map "$ref").bind Json.asStr with
      | none => rfl
      | some refStr =>
        rw [Option.bind_some]
        cases stripPrefix? refStr "#/$defs/" <;> rfl
    | _ => exact .leaf rfl rfl
  obtain ⟨hclean, hmap⟩ :=
    get_clean_named schema (show "$defs" ∈ NAMED_SUBSCHEMA_CONTAINERS by decide)
  unfold inlineDefs stripMetaFields defsOf
  rw [hclean]
  cases hdefs : get schema "$defs" with
  | none =>
    simp only [Option.map_none, Option.bind_none, Option.getD_none, funext hnone]
    exact Option.map_id'.symm
  | some v =>
    cases v with
    | obj defs =>
      simp only [Option.map_some, hmap, get_mapValues, get_remove_of_ne _ hk]
      rfl
    | _ =>
      rw [Option.map_some, sanitizeKeyword_of_no_map (by decide) rfl]
      simp only [Option.bind_some, Json.asObject, Option.getD_none, funext hnone,
        get_insert_of_ne _ _ hk, get_remove_of_ne _ hk]
      exact Option.map_id'.symm

/-! ### Where the data comes from -/

/-- The variants the root is flattened from, with the chain they are resolved on. -/
def flattenedVariants (schema : JsonObject) : Option (List String × List Json) :=
  (rootCombinator schema).bind fun key => (get schema key).bind fun v =>
    match settled (defsOf schema) [] (.of v) with
    | (chain, .value (.arr items)) => some (chain, items)
    | _ => none

/-- A variant has a property without a `const`. -/
def declaresPlain (defs : JsonObject) (chain : List String) (name : String) (variant : Json) :
    Bool :=
  (sourceAt defs [.member "properties" name] chain (.of variant)).any fun s =>
    (s.2.data "const").isNone

/-- The discriminator of the flat root. -/
def discriminatorOf (schema : JsonObject) : Option String :=
  (rootCombinator schema).bind fun key =>
    discriminatorKey (variantsOf (inlineDefs (stripMetaFields schema)) key)

/-- From a schema inside the root of the input. -/
def ownSource (schema : JsonObject) (step : Step) (path : List Step) (k : String) :
    Option (List String × Json) :=
  (schemaIn (.obj schema) step).bind fun v => dataSource (defsOf schema) path [] (.of v) k

/-- The value of the input from which the output has the data at a place: a
flat property comes from the first variant that declares it. -/
def inputSource (schema : JsonObject) : List Step → String → Option (List String × Json)
  | [], k => (get schema k).map fun v => ([], v)
  | .keyword key :: path, k =>
    if rootCombinator schema = some key then none else ownSource schema (.keyword key) path k
  | .member key name :: path, k =>
    if key = "$defs" then none
    else if key = "properties" then
      match flattenedVariants schema with
      | some (chain, variants) =>
        if discriminatorOf schema = some name then none
        else (variants.find? (declaresPlain (defsOf schema) chain name)).bind fun v =>
          dataSource (defsOf schema) (.member key name :: path) chain (.of v) k
      | none => ownSource schema (.member key name) path k
    else ownSource schema (.member key name) path k
  | .item _ :: _, _ => none

/-- The node that the flattening makes up. -/
def AtDiscriminator (schema : JsonObject) (path : List Step) : Prop :=
  ∃ tagKey, discriminatorOf schema = some tagKey ∧ path = [.member "properties" tagKey]

section Root

variable {schema : JsonObject} (hin : InputSchema (.obj schema))

include hin in
theorem schemaIn_inlineDefs {step : Step} (hstep : ∀ n, step ≠ .member "$defs" n) :
    schemaIn (.obj (inlineDefs (stripMetaFields schema))) step =
      (schemaIn (.obj schema) step).map fun v =>
        resolveRefsInner (cleanDefs (defsOf schema)) [] (sanitizeValueRecursive v) := by
  have hlayered := layered_clean hin
  cases step with
  | keyword k =>
    simp only [schemaIn]
    split_ifs with hk
    · have hdefs : k ≠ "$defs" := by
        rintro rfl
        exact absurd hk (by decide)
      rw [Json.get_obj, get_inlineDefs_strip schema hdefs, hlayered.keyword k hk,
        lookup_singleton, Option.map_map]
      rfl
    · rfl
  | member k n =>
    simp only [schemaIn]
    split_ifs with hk
    · have hnamed : k ∈ NAMED_SUBSCHEMA_CONTAINERS := by simpa using hk
      have hdefs : k ≠ "$defs" := by
        rintro rfl
        exact hstep n rfl
      have hmember := hlayered.member k hnamed n
      rw [memberIn_singleton] at hmember
      unfold memberOf at hmember
      rw [Json.get_obj, get_inlineDefs_strip schema hdefs,
        member_resolve fun map s hmap => hlayered.names k hnamed map s hmap, hmember,
        Option.map_map]
      rfl
    · rfl
  | item i => rfl

theorem schemaIn_defs_dropped (n : String) :
    schemaIn (.obj (inlineDefs (stripMetaFields schema))) (.member "$defs" n) = none := by
  rw [schemaIn, if_pos (by decide), Json.get_obj]
  unfold inlineDefs
  split
  · rw [get_mapValues, get_remove_self]
    rfl
  · next v hobj _ =>
    rw [get_insert_self]
    cases v with
    | obj defs => exact absurd rfl (hobj defs)
    | _ => rfl
  · next hnone =>
    rw [hnone]
    rfl

include hin in
/-- The data at a place inside the root, before the flattening. -/
theorem dataAt_inlineDefs {step : Step} (hstep : ∀ n, step ≠ .member "$defs" n) (path : List Step)
    {k : String} (hk : k ∈ DATA_KEYWORDS) :
    dataAt (.obj (inlineDefs (stripMetaFields schema))) (step :: path) k =
      (ownSource schema step path k).map fun e =>
        resolveRefsInner (cleanDefs (defsOf schema)) e.1 e.2 := by
  unfold dataAt ownSource
  rw [schemaAt, schemaIn_inlineDefs hin hstep]
  cases hinside : schemaIn (.obj schema) step with
  | none => rfl
  | some v =>
    exact dataAt_resolve (inputSchema_defsOf hin) path [] (represents_of (hin.inside hinside)) hk

/-! ### The variants -/

theorem get_propertiesOf (value : Json) (name : String) :
    get (propertiesOf value) name = schemaIn value (.member "properties" name) := by
  rw [schemaIn, if_pos (by decide)]
  unfold propertiesOf
  cases value.get "properties" with
  | none => rfl
  | some props => cases props <;> rfl

variable {defs : JsonObject} (hdefs : ∀ name d, get defs name = some d → InputSchema d)

include hdefs in
/-- Whether a resolved variant declares a property can be seen at its source. -/
theorem plainProperty_resolve {variant : Json} (h : InputSchema variant) (chain : List String)
    (name : String) :
    (plainProperty (propertiesOf
        (resolveRefsInner (cleanDefs defs) chain (sanitizeValueRecursive variant))) name).isSome =
      declaresPlain defs chain name variant := by
  obtain ⟨hnone, hsome⟩ :=
    schemaAt_resolve hdefs [.member "properties" name] chain (represents_of h)
  have hat : ∀ v, schemaAt v [.member "properties" name] =
      schemaIn v (.member "properties" name) := by
    intro v
    rw [schemaAt]
    cases schemaIn v (.member "properties" name) <;> rfl
  simp only [hat] at hnone hsome
  unfold plainProperty declaresPlain
  rw [get_propertiesOf]
  cases hsource : sourceAt defs [.member "properties" name] chain (.of variant) with
  | none => rw [hnone hsource]; rfl
  | some s =>
    obtain ⟨c, s⟩ := s
    obtain ⟨value', hrep, hstays, heq⟩ := hsome c s hsource
    have hconst : isConst (resolveRefsInner (cleanDefs defs) c value') =
        (s.data "const").isSome := by
      rw [isConst, get_data_stays hrep hstays (by decide), Option.isSome_map]
    rw [heq]
    simp only [Option.filter_some, Option.any_some, hconst]
    cases s.data "const" <;> rfl

include hdefs in
theorem dataAt_firstPlain (chain : List String) (items : List Json)
    (hitems : ∀ v ∈ items, InputSchema v) (name : String) (path : List Step) {k : String}
    (hk : k ∈ DATA_KEYWORDS) :
    ((firstPlain (items.map fun v =>
        resolveRefsInner (cleanDefs defs) chain (sanitizeValueRecursive v)) name).bind fun w =>
          dataAt w path k) =
      ((items.find? (declaresPlain defs chain name)).bind fun v =>
        dataSource defs (.member "properties" name :: path) chain (.of v) k).map fun e =>
          resolveRefsInner (cleanDefs defs) e.1 e.2 := by
  induction items with
  | nil => rfl
  | cons variant items ih =>
    have hvariant := hitems variant List.mem_cons_self
    have hdeclares := plainProperty_resolve hdefs hvariant chain name
    unfold firstPlain at ih ⊢
    rw [List.map_cons, List.findSome?_cons, List.find?_cons, ← hdeclares]
    cases hplain : plainProperty (propertiesOf
        (resolveRefsInner (cleanDefs defs) chain (sanitizeValueRecursive variant))) name with
    | none => exact ih fun v hv => hitems v (List.mem_cons_of_mem variant hv)
    | some w =>
      have hw : schemaIn (resolveRefsInner (cleanDefs defs) chain (sanitizeValueRecursive variant))
          (.member "properties" name) = some w := by
        rw [← get_propertiesOf]
        exact (Option.filter_eq_some_iff.mp hplain).1
      have hdata := dataAt_resolve hdefs (.member "properties" name :: path) chain
        (represents_of hvariant) hk
      rw [dataAt, schemaAt, hw] at hdata
      exact hdata

include hin in
/-- The variants that are flattened are those of the input, resolved. -/
theorem variants_resolved {key : String} (hroot : rootCombinator schema = some key) :
    (flattenedVariants schema = none ∧
        ∀ items, get (inlineDefs (stripMetaFields schema)) key ≠ some (.arr items)) ∨
      ∃ chain items, flattenedVariants schema = some (chain, items) ∧
        (∀ v ∈ items, InputSchema v) ∧
        get (inlineDefs (stripMetaFields schema)) key = some (.arr (items.map fun v =>
          resolveRefsInner (cleanDefs (defsOf schema)) chain (sanitizeValueRecursive v))) := by
  have hkey : key ∈ COMBINATORS := List.mem_of_find?_eq_some hroot
  have hstep : ∀ n, Step.keyword key ≠ .member "$defs" n := nofun
  have hall : ∀ key ∈ COMBINATORS, holdsSchemas key = true := by decide
  have hholds := hall key hkey
  obtain ⟨v, hv⟩ : ∃ v, get schema key = some v :=
    Option.isSome_iff_exists.mp (List.find?_some (p := fun k => containsKey schema k) hroot)
  have hinside : schemaIn (.obj schema) (.keyword key) = some v := by
    rw [schemaIn, if_pos hholds]
    exact hv
  have hget := schemaIn_inlineDefs hin hstep
  rw [hinside, schemaIn, if_pos hholds, Json.get_obj] at hget
  -- The keyword may hold a reference; what is flattened is what it leads to.
  obtain ⟨value', hrep, hstays, heq⟩ := settled_spec (inputSchema_defsOf hin) []
    (represents_of (hin.inside hinside))
  rw [Option.map_some, heq] at hget
  unfold flattenedVariants
  rw [hroot, Option.bind_some, hv, Option.bind_some, hget]
  generalize settled (defsOf schema) [] (.of v) = target at hrep hstays hget
  obtain ⟨chain, source⟩ := target
  cases hrep with
  | node _ hnode =>
    left
    refine ⟨rfl, fun items hitems => ?_⟩
    have hnone := asArray_resolve_stays hnode hstays
    rw [Option.some.inj hitems] at hnone
    cases hnone
  | value hvalue hobj =>
    rename_i w
    cases w with
    | arr items =>
      right
      refine ⟨chain, items, rfl, fun v hv => ?_, ?_⟩
      · obtain ⟨i, hi⟩ := List.getElem?_of_mem hv
        exact hvalue.inside (show schemaIn (.arr items) (.item i) = some v from hi)
      · rw [sanitizeValueRecursive_arr, resolveRefsInner_arr, List.map_map]
        rfl
    | obj map => cases hobj
    | bool b =>
      left
      refine ⟨rfl, fun items hitems => ?_⟩
      cases b with
      | true =>
        rw [sanitizeValueRecursive, resolveRefsInner_empty] at hitems
        cases hitems
      | false =>
        rw [resolveRefsInner_leaf rfl rfl] at hitems
        cases hitems
    | _ =>
      left
      refine ⟨rfl, fun items hitems => ?_⟩
      rw [resolveRefsInner_leaf rfl rfl] at hitems
      cases hitems

/-! ### The whole pipeline -/

variable (toJson : Json → String)

/-- The flattening leaves a keyword that it does not write. -/
theorem get_rewriteSchema (schema : JsonObject) {k : String}
    (hk : k ∉ ["type", "properties", "required"]) :
    get (rewriteSchema toJson schema) k =
      if rootCombinator schema = some k then none
      else get (inlineDefs (stripMetaFields schema)) k := by
  rw [rewriteSchema, get_flattenTopLevelCombinator toJson _ hk, rootCombinator_inlined]

theorem not_combinator {k : String} (hk : k ∉ COMBINATORS) : rootCombinator schema ≠ some k :=
  fun h => hk (List.mem_of_find?_eq_some h)

include hin in
theorem wellFormed_variant (chain : List String) {v : Json} (hv : InputSchema v) :
    WellFormed (resolveRefsInner (cleanDefs (defsOf schema)) chain (sanitizeValueRecursive v)) := by
  apply wellFormed_resolve _ _ _ (wellFormed_sanitize hv.wellFormed)
  intro name d hd
  obtain ⟨d', hd', rfl⟩ := Option.map_eq_some_iff.mp ((get_mapValues _ _ _).symm.trans hd)
  exact wellFormed_sanitize (inputSchema_defsOf hin name d' hd').wellFormed

theorem sorted_propertiesOf {value : Json} (h : WellFormed value) :
    Sorted (propertiesOf value) := by
  unfold propertiesOf
  cases hprops : value.get "properties" with
  | none => exact List.Pairwise.nil
  | some props =>
    have hwf := everyObject_of_get h hprops
    cases props with
    | obj map => exact hwf.node
    | _ => exact List.Pairwise.nil

include hin in
/-- The data in the properties of the root. -/
theorem dataAt_rewriteSchema_properties {name : String} (path : List Step) {k : String}
    (hk : k ∈ DATA_KEYWORDS)
    (hpath : ¬ AtDiscriminator schema (.member "properties" name :: path)) :
    dataAt (.obj (rewriteSchema toJson schema)) (.member "properties" name :: path) k =
      (inputSource schema (.member "properties" name :: path) k).map fun e =>
        resolveRefsInner (cleanDefs (defsOf schema)) e.1 e.2 := by
  have hstep : ∀ n, Step.member "properties" name ≠ .member "$defs" n := by
    intro n h
    exact absurd (Step.member.inj h).1 (by decide)
  have hown := dataAt_inlineDefs hin hstep path hk
  simp only [inputSource, if_neg (show "properties" ≠ "$defs" by decide), if_true]
  unfold rewriteSchema flattenTopLevelCombinator
  rw [rootCombinator_inlined]
  cases hroot : rootCombinator schema with
  | none =>
    have hnone : flattenedVariants schema = none := by rw [flattenedVariants, hroot]; rfl
    rw [hnone]
    exact hown
  | some key =>
    rcases variants_resolved hin hroot with ⟨hnone, harr⟩ | ⟨chain, items, hsome, hitems, hget⟩
    · have hprops : key ≠ "properties" := by
        rintro rfl
        exact not_combinator (by decide) hroot
      have hsame : (Json.obj (remove (inlineDefs (stripMetaFields schema)) key)).get "properties" =
          (Json.obj (inlineDefs (stripMetaFields schema))).get "properties" :=
        get_remove_of_ne _ hprops.symm
      rw [hnone]
      dsimp only
      split
      · next variants hvariants => exact absurd hvariants (harr variants)
      · rw [← hown, dataAt, dataAt, schemaAt, schemaAt, schemaIn, schemaIn, hsame]
    · have hdisc : discriminatorOf schema = discriminatorKey (items.map fun v =>
          resolveRefsInner (cleanDefs (defsOf schema)) chain (sanitizeValueRecursive v)) := by
        rw [discriminatorOf, hroot, Option.bind_some, variantsOf, hget]
        rfl
      rw [hsome]
      simp only [hget]
      -- The property is the discriminator, or the first variant with it gave it.
      split_ifs with htag
      · obtain ⟨w, hw, hinside⟩ := schemaIn_flat_discriminator toJson
          (remove (inlineDefs (stripMetaFields schema)) key) (hdisc ▸ htag)
        cases path with
        | nil => exact absurd ⟨name, htag, rfl⟩ hpath
        | cons step path =>
          rw [dataAt, schemaAt, hw, Option.bind_some, schemaAt, hinside]
          rfl
      · rw [dataAt_flattenVariants toJson _ _ _ (hdisc ▸ htag) path hk]
        · exact dataAt_firstPlain (inputSchema_defsOf hin) chain items hitems name path hk
        · intro v hv
          obtain ⟨w, hw, rfl⟩ := List.mem_map.mp hv
          exact sorted_propertiesOf (wellFormed_variant hin chain (hitems w hw))

theorem schemaIn_congr {a b : JsonObject} {key : String} (h : get a key = get b key) :
    schemaIn (.obj a) (.keyword key) = schemaIn (.obj b) (.keyword key) ∧
      ∀ name, schemaIn (.obj a) (.member key name) = schemaIn (.obj b) (.member key name) := by
  simp only [schemaIn, Json.get_obj, h, implies_true, and_self]

theorem holdsSchemas_frame {key : String} (h : holdsSchemas key = true) :
    key ∉ ["type", "properties", "required"] ∧ key ≠ "$defs" := by
  obtain ⟨-, hnamed, htext⟩ := (holdsSchemas_iff key).mp h
  simp only [NAMED_SUBSCHEMA_CONTAINERS, TEXT_KEYWORDS, List.mem_cons, List.not_mem_nil, or_false,
    not_or] at hnamed htext ⊢
  tauto

/-- Maps of schemas other than the properties. -/
theorem named_frame {key : String} (h : key ∈ NAMED_SUBSCHEMA_CONTAINERS)
    (hprops : key ≠ "properties") :
    key ∉ ["type", "properties", "required"] ∧ key ∉ COMBINATORS := by
  revert key
  decide

include hin in
/-- The data of a rewritten root comes from its source, resolved. -/
theorem dataAt_rewriteSchema (path : List Step) {k : String} (hk : k ∈ DATA_KEYWORDS)
    (hpath : ¬ AtDiscriminator schema path) :
    dataAt (.obj (rewriteSchema toJson schema)) path k =
      (inputSource schema path k).map fun e =>
        resolveRefsInner (cleanDefs (defsOf schema)) e.1 e.2 := by
  cases path with
  | nil =>
    have hframe : k ∉ ["type", "properties", "required"] ∧ k ≠ "$defs" ∧ k ∉ COMBINATORS := by
      revert k
      decide
    have hget : get (rewriteSchema toJson schema) k =
        (get schema k).map (resolveRefsInner (cleanDefs (defsOf schema)) []) := by
      rw [get_rewriteSchema toJson schema hframe.1, if_neg (not_combinator hframe.2.2),
        get_inlineDefs_strip schema hframe.2.1, (layered_clean hin).data k hk, lookup_singleton]
    rw [inputSource, Option.map_map]
    exact hget
  | cons step path =>
    cases step with
    | keyword key =>
      rw [inputSource]
      by_cases hholds : holdsSchemas key = true
      · obtain ⟨hframe, hdefs⟩ := holdsSchemas_frame hholds
        have hget := get_rewriteSchema toJson schema hframe
        split_ifs with hroot
        · -- The combinator that was flattened is gone.
          rw [if_pos hroot] at hget
          rw [dataAt, schemaAt, schemaIn, if_pos hholds, Json.get_obj, hget]
          rfl
        · rw [if_neg hroot] at hget
          rw [dataAt, schemaAt, (schemaIn_congr hget).1]
          have hstep : ∀ n, Step.keyword key ≠ .member "$defs" n := by
            intro n h
            cases h
          exact dataAt_inlineDefs hin hstep path hk
      · have hnone : ∀ v, schemaIn v (.keyword key) = none := fun v => if_neg hholds
        simp only [dataAt, schemaAt, ownSource, hnone, Option.bind_none, ite_self]
        rfl
    | member key name =>
      by_cases hprops : key = "properties"
      · subst hprops
        exact dataAt_rewriteSchema_properties hin toJson path hk hpath
      · rw [inputSource, if_neg hprops]
        by_cases hnamed : key ∈ NAMED_SUBSCHEMA_CONTAINERS
        · obtain ⟨hframe, hcomb⟩ := named_frame hnamed hprops
          have hget := get_rewriteSchema toJson schema hframe
          rw [if_neg (not_combinator hcomb)] at hget
          rw [dataAt, schemaAt, (schemaIn_congr hget).2]
          split_ifs with hdefs
          · rw [hdefs, schemaIn_defs_dropped]
            rfl
          · have hstep : ∀ n, Step.member key name ≠ .member "$defs" n :=
              fun n h => hdefs (Step.member.inj h).1
            exact dataAt_inlineDefs hin hstep path hk
        · have hnone : ∀ v, schemaIn v (.member key name) = none :=
            fun v => if_neg (by simpa using hnamed)
          simp only [dataAt, schemaAt, ownSource, hnone, Option.bind_none, ite_self]
          rfl
    | item i => rfl

/-- The patch adds no data. -/
theorem dataAt_patched (schema : JsonObject) (path : List Step) {k : String}
    (hk : k ∈ DATA_KEYWORDS) :
    dataAt (.obj (sanitizeInputSchema toJson schema).1) path k =
      dataAt (.obj (rewriteSchema toJson schema)) path k := by
  cases path with
  | nil =>
    apply get_patched toJson schema
    revert k
    decide
  | cons step path =>
    have hinside : schemaIn (.obj (sanitizeInputSchema toJson schema).1) step =
        schemaIn (.obj (rewriteSchema toJson schema)) step := by
      cases step with
      | keyword key =>
        by_cases hholds : holdsSchemas key = true
        · exact (schemaIn_congr (get_patched toJson schema (holdsSchemas_frame hholds).1)).1
        · rw [schemaIn, schemaIn, if_neg hholds, if_neg hholds]
      | member key name =>
        by_cases hprops : key = "properties"
        · subst hprops
          unfold sanitizeInputSchema
          dsimp only
          split_ifs with htype hin
          · rfl
          · apply (schemaIn_congr _).2
            exact get_insert_of_ne _ _ (by decide)
          · have habsent : get (rewriteSchema toJson schema) "properties" = none := by
              rw [containsKey, get_insert_of_ne _ _ (by decide)] at hin
              simpa using hin
            simp only [schemaIn, Json.get_obj, get_insert_self, habsent]
            rfl
        · by_cases hnamed : key ∈ NAMED_SUBSCHEMA_CONTAINERS
          · exact (schemaIn_congr (get_patched toJson schema
              (named_frame hnamed hprops).1)).2 name
          · have hnot : ¬ NAMED_SUBSCHEMA_CONTAINERS.contains key = true := by simpa using hnamed
            rw [schemaIn, schemaIn, if_neg hnot, if_neg hnot]
      | item i => rfl
    rw [dataAt, dataAt, schemaAt, schemaAt, hinside]

include hin in
theorem inputSource_discriminator {path : List Step} (h : AtDiscriminator schema path)
    (k : String) : inputSource schema path k = none := by
  obtain ⟨tagKey, htag, rfl⟩ := h
  have hsome : (flattenedVariants schema).isSome = true := by
    obtain ⟨key, hroot, hkey⟩ := Option.bind_eq_some_iff.mp htag
    rcases variants_resolved hin hroot with ⟨-, harr⟩ | ⟨chain, items, hsome, -⟩
    · unfold variantsOf at hkey
      cases hget : get (inlineDefs (stripMetaFields schema)) key with
      | none =>
        rw [hget] at hkey
        cases hkey
      | some v =>
        rw [hget] at hkey
        cases v with
        | arr items => exact absurd hget (harr items)
        | _ => cases hkey
    · rw [hsome]
      rfl
  obtain ⟨variants, hvariants⟩ := Option.isSome_iff_exists.mp hsome
  rw [inputSource, if_neg (by decide), if_pos rfl, hvariants]
  exact if_pos htag

end Root

/-- Data reaches the client as it stands in the input exactly when none of it
holds a reference to a definition. -/
theorem data_verbatim_iff (toJson : Json → String) (tool : Tool) (schema : JsonObject)
    (hin : InputSchema (.obj schema))
    (hdefs : ∀ name s, get (defsOf schema) name ≠ some (.str s)) :
    (∀ path k v, k ∈ DATA_KEYWORDS → ¬ AtDiscriminator schema path →
        dataAt (sanitizeOne toJson { tool with inputSchema := .obj schema }).1.inputSchema path k =
          some v → ∃ chain, inputSource schema path k = some (chain, v)) ↔
      ∀ path k chain v, k ∈ DATA_KEYWORDS → inputSource schema path k = some (chain, v) →
        NoReference (defsOf schema) v := by
  have hclean : ∀ name s, get (cleanDefs (defsOf schema)) name ≠ some (.str s) := by
    intro name s h
    obtain ⟨d, hd, he⟩ := Option.map_eq_some_iff.mp ((get_mapValues _ _ _).symm.trans h)
    exact hdefs name s (eq_str_of_sanitize he ▸ hd)
  have hdata : ∀ path k, k ∈ DATA_KEYWORDS → ¬ AtDiscriminator schema path →
      dataAt (sanitizeOne toJson { tool with inputSchema := .obj schema }).1.inputSchema path k =
        (inputSource schema path k).map fun e =>
          resolveRefsInner (cleanDefs (defsOf schema)) e.1 e.2 := by
    intro path k hk hpath
    rw [← dataAt_rewriteSchema hin toJson path hk hpath]
    exact dataAt_patched toJson schema path hk
  constructor
  · intro h path k chain v hk hsource
    have hpath : ¬ AtDiscriminator schema path := by
      intro hpath
      rw [inputSource_discriminator hin hpath] at hsource
      cases hsource
    have hout := hdata path k hk hpath
    rw [hsource] at hout
    obtain ⟨chain', hsource'⟩ := h path k _ hk hpath hout
    rw [hsource] at hsource'
    have hsame : resolveRefsInner (cleanDefs (defsOf schema)) chain v = v :=
      (Prod.mk.inj (Option.some.inj hsource')).2.symm
    exact (noReference_cleanDefs _ v).mp ((resolve_eq_self_iff hclean chain v).mp hsame)
  · intro h path k v hk hpath hout
    rw [hdata path k hk hpath] at hout
    obtain ⟨⟨chain, source⟩, hsource, he⟩ := Option.map_eq_some_iff.mp hout
    have hsame := resolve_of_noReference chain
      ((noReference_cleanDefs _ source).mpr (h path k chain source hk hsource))
    exact ⟨chain, by rw [hsource, ← he, hsame]⟩

/-- A default that looks like a reference. -/
def exampleDefault : JsonObject :=
  [("$defs", .obj [("P", .obj [("type", .str "string")])]),
    ("properties", .obj [("p", .obj [("default", .obj [("$ref", .str "#/$defs/P")])])]),
    ("type", .str "object")]

theorem inputSchema_exampleDefault : InputSchema (.obj exampleDefault) := by
  apply InputSchema.of_everyObject (by decide)
  have hplain : EveryObject
      (fun map => ∀ k ∈ NAMED_SUBSCHEMA_CONTAINERS,
        (((get map k).bind Json.asObject).bind fun named => get named "$ref").isNone = true)
      (.obj exampleDefault) := by
    decide
  apply hplain.imp
  intro map hmap k hk named s hnamed href
  have hnone := hmap k hk
  rw [hnamed, Option.bind_some, Json.asObject, Option.bind_some, href] at hnone
  cases hnone

theorem data_verbatim_exampleDefault :
    (∀ path k v, k ∈ DATA_KEYWORDS → ¬ AtDiscriminator exampleDefault path →
        dataAt (sanitizeOne (fun _ => "")
          ⟨"t", .obj exampleDefault, none, .null⟩).1.inputSchema path k = some v →
            ∃ chain, inputSource exampleDefault path k = some (chain, v)) ↔
      ∀ path k chain v, k ∈ DATA_KEYWORDS →
        inputSource exampleDefault path k = some (chain, v) →
          NoReference (defsOf exampleDefault) v :=
  data_verbatim_iff (fun _ => "") ⟨"t", .null, none, .null⟩ exampleDefault
    inputSchema_exampleDefault
    (by
      intro name s h
      have hmem := mem_of_get h
      cases List.mem_singleton.mp hmem)

/-- The default becomes the definition. -/
theorem default_is_resolved :
    ¬ ∀ path k v, k ∈ DATA_KEYWORDS → ¬ AtDiscriminator exampleDefault path →
        dataAt (sanitizeOne (fun _ => "")
          ⟨"t", .obj exampleDefault, none, .null⟩).1.inputSchema path k = some v →
            ∃ chain, inputSource exampleDefault path k = some (chain, v) := by
  intro h
  have hroot : ¬ AtDiscriminator exampleDefault [.member "properties" "p"] := by
    rintro ⟨tagKey, htag, -⟩
    cases htag
  obtain ⟨chain, hsource⟩ := h [.member "properties" "p"] "default"
    (.obj [("type", .str "string")]) (by decide) hroot rfl
  have hinput : inputSource exampleDefault [.member "properties" "p"] "default" =
      some ([], .obj [("$ref", .str "#/$defs/P")]) := rfl
  rw [hinput] at hsource
  have htype := congrArg (fun o => o.any fun e : List String × Json => (e.2.get "type").isSome)
    hsource
  exact Bool.false_ne_true htype

end McpFramework.Sanitize
