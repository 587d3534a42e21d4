import McpFramework.Capability.SchemaNodes
import McpFramework.Capability.Flattening

/-!
# Capability — MetaStripping

`strip_meta_fields` against what it is for: meta fields go at schema nodes, and
whatever is no schema stays as it is. The pass walks the value of every keyword
it does not know as data, so a flag that is `true`, or an object with a member
`title`, is taken for a schema.
-/

namespace McpFramework.Sanitize

open Lib BTreeMap Json

/-! ## What the pass is for -/

/-- Keywords whose value is a schema or a list of schemas. -/
def SUBSCHEMA_KEYWORDS : List String :=
  ["allOf", "anyOf", "oneOf", "not", "if", "then", "else", "items", "prefixItems",
    "additionalItems", "contains", "additionalProperties", "propertyNames", "unevaluatedItems",
    "unevaluatedProperties", "contentSchema"]

/-- The fields of a schema node without the meta fields. -/
def nodeFields (map : JsonObject) : JsonObject :=
  foldTitleIntoDescription (remove map "$schema")

/-- What a value in schema position is to become. -/
inductive Strips : Json → Json → Prop where
  | whole : Strips (.bool true) (.obj [])
  | leaf {v : Json} : v ≠ .bool true → v.asArray = none → v.asObject = none → Strips v v
  | items {items : List Json} (f : Json → Json) :
      (∀ v ∈ items, Strips v (f v)) → Strips (.arr items) (.arr (items.map f))
  | node {map : JsonObject} (f : String → Json → Json) (g : String → String → Json → Json) :
      (∀ k v, (k, v) ∈ nodeFields map → k ∈ SUBSCHEMA_KEYWORDS → Strips v (f k v)) →
      (∀ k named, (k, .obj named) ∈ nodeFields map → k ∈ NAMED_SUBSCHEMA_CONTAINERS →
        f k (.obj named) = .obj (mapValues (g k) named)) →
      (∀ k named, (k, .obj named) ∈ nodeFields map → k ∈ NAMED_SUBSCHEMA_CONTAINERS →
        ∀ n s, (n, s) ∈ named → Strips s (g k n s)) →
      (∀ k v, (k, v) ∈ nodeFields map → k ∉ SUBSCHEMA_KEYWORDS →
        (k ∈ NAMED_SUBSCHEMA_CONTAINERS → v.asObject = none) → f k v = v) →
      Strips (.obj map) (.obj (mapValues f (nodeFields map)))

/-- The meta fields are gone, a title is the description where there was none,
and the other fields are those of the node. -/
theorem get_nodeFields (map : JsonObject) (k : String) :
    get (nodeFields map) k =
      if k = "$schema" ∨ k = "title" then none
      else if k = "description" ∧ nonblank (get map "description") = none then
        ((nonblank (get map "title")).map Json.str).or (get map "description")
      else get map k := by
  have htitle : get (remove map "$schema") "title" = get map "title" :=
    get_remove_of_ne map (by decide)
  have hdescription : get (remove map "$schema") "description" = get map "description" :=
    get_remove_of_ne map (by decide)
  by_cases hk : k = "description"
  · subst hk
    rw [if_neg (by decide)]
    simp only [true_and, nodeFields, foldTitleIntoDescription, htitle]
    cases get map "title" with
    | none =>
      simp [nonblank, hdescription]
    | some title =>
      cases title with
      | str titleStr =>
        have hkept : get (remove (remove map "$schema") "title") "description" =
            get map "description" := by
          rw [get_remove_of_ne _ (by decide), hdescription]
        by_cases hblank : trim titleStr = ""
        · have hnone : nonblank (some (.str titleStr)) = none := by
            simp [nonblank, Json.asStr, Option.filter, hblank]
          simp [hnone, hblank, hkept]
        · have hsome : nonblank (some (.str titleStr)) = some titleStr := by
            simp [nonblank, Json.asStr, Option.filter, hblank]
          by_cases hnone : nonblank (get map "description") = none
          · simp [hsome, hblank, hkept, hnone]
          · simp [hblank, hkept, hnone]
      | _ => simp [nonblank, Json.asStr, get_remove_of_ne, hdescription]
  · rw [nodeFields, get_foldTitleIntoDescription _ hk, get_remove]
    simp only [hk, false_and, if_false]
    split_ifs <;> simp_all

/-! ## Values the pass leaves alone -/

/-- A value that may be taken for a schema: nothing in it is `true` or a meta
field where the pass looks. -/
inductive Inert : Json → Prop where
  | leaf {v : Json} : v ≠ .bool true → v.asArray = none → v.asObject = none → Inert v
  | items {items : List Json} : (∀ v ∈ items, Inert v) → Inert (.arr items)
  | node {map : JsonObject} : "$schema" ∉ keys map → "title" ∉ keys map →
      (∀ k v, (k, v) ∈ map → k ∉ DATA_KEYWORDS → k ∉ NAMED_SUBSCHEMA_CONTAINERS → Inert v) →
      (∀ k named, (k, .obj named) ∈ map → k ∈ NAMED_SUBSCHEMA_CONTAINERS →
        ∀ n s, (n, s) ∈ named → Inert s) → Inert (.obj map)

theorem sanitizeKeyword_data {key : String} (h : key ∈ DATA_KEYWORDS) (v : Json) :
    sanitizeKeyword key v = v := by
  unfold sanitizeKeyword
  rw [if_pos (List.contains_iff_mem.mpr h)]

theorem not_data_of_named {key : String} (h : key ∈ NAMED_SUBSCHEMA_CONTAINERS) :
    key ∉ DATA_KEYWORDS := by
  revert key
  decide

theorem sanitizeKeyword_named {key : String} (h : key ∈ NAMED_SUBSCHEMA_CONTAINERS)
    (named : JsonObject) :
    sanitizeKeyword key (.obj named) =
      .obj (mapValues (fun _ s => sanitizeValueRecursive s) named) := by
  unfold sanitizeKeyword
  rw [if_neg (by simpa using not_data_of_named h), if_pos (List.contains_iff_mem.mpr h)]

theorem sanitizeKeyword_named_other {key : String} (h : key ∈ NAMED_SUBSCHEMA_CONTAINERS)
    {v : Json} (hv : v.asObject = none) : sanitizeKeyword key v = v := by
  unfold sanitizeKeyword
  rw [if_neg (by simpa using not_data_of_named h), if_pos (List.contains_iff_mem.mpr h)]
  cases v with
  | obj named => cases hv
  | _ => rfl

/-- A map of named schemas is left alone when each of them is. -/
theorem mapValues_eq_self_iff (f : String → Json → Json) (map : JsonObject) :
    mapValues f map = map ↔ ∀ k v, (k, v) ∈ map → f k v = v := by
  have hid : mapValues (fun _ v => v) map = map := by simp [mapValues]
  have h := mapValues_eq_iff f (fun _ v => v) map
  rwa [hid] at h

/-- A node without meta fields is what its fields are. -/
theorem sanitizeSchemaNode_eq_self_iff (map : JsonObject) :
    sanitizeSchemaNode map = map ↔
      "$schema" ∉ keys map ∧ "title" ∉ keys map ∧
        ∀ k v, (k, v) ∈ map → sanitizeKeyword k v = v := by
  have hfields : "$schema" ∉ keys map → "title" ∉ keys map →
      sanitizeSchemaNode map = mapValues sanitizeKeyword map := by
    intro hschema htitle
    unfold sanitizeSchemaNode foldTitleIntoDescription
    rw [remove_of_absent hschema, (get_eq_none_iff map "title").mpr htitle]
  constructor
  · intro h
    have hschema : "$schema" ∉ keys map := by
      rw [← get_eq_none_iff, ← h, get_sanitizeSchemaNode map (by decide), if_pos (by decide)]
    have htitle : "title" ∉ keys map := by
      rw [← get_eq_none_iff, ← h, get_sanitizeSchemaNode map (by decide), if_pos (by decide)]
    rw [hfields hschema htitle] at h
    exact ⟨hschema, htitle, (mapValues_eq_self_iff _ _).mp h⟩
  · rintro ⟨hschema, htitle, hvalues⟩
    rw [hfields hschema htitle]
    exact (mapValues_eq_self_iff _ _).mpr hvalues

theorem map_eq_self_iff (f : Json → Json) (items : List Json) :
    items.map f = items ↔ ∀ v ∈ items, f v = v := by
  have h := List.map_inj_left (l := items) (f := f) (g := id)
  rwa [List.map_id] at h

/-- The pass leaves a value alone exactly when it is inert. -/
theorem sanitizeValueRecursive_eq_self_iff (value : Json) :
    sanitizeValueRecursive value = value ↔ Inert value := by
  induction value using Json.walkTwo with
  | leaf v harr hobj =>
    constructor
    · intro h
      apply Inert.leaf _ harr hobj
      rintro rfl
      cases h
    · intro h
      cases h with
      | leaf htrue =>
        cases v with
        | bool b => cases b <;> simp_all [sanitizeValueRecursive]
        | arr items => cases harr
        | obj map => cases hobj
        | _ => rfl
      | items => cases harr
      | node => cases hobj
  | arr items ih =>
    rw [sanitizeValueRecursive_arr, Json.arr.injEq, map_eq_self_iff]
    constructor
    · exact fun h => .items fun v hv => (ih v hv).mp (h v hv)
    · intro h v hv
      cases h with
      | leaf _ harr => cases harr
      | items h => exact (ih v hv).mpr (h v hv)
  | obj map ih ihNamed =>
    rw [sanitizeValueRecursive_obj, Json.obj.injEq, sanitizeSchemaNode_eq_self_iff]
    constructor
    · rintro ⟨hschema, htitle, hvalues⟩
      apply Inert.node hschema htitle
      · intro k v hv hdata hnamed
        have hself := hvalues k v hv
        rw [sanitizeKeyword_of_plain hdata hnamed] at hself
        exact (ih k v hv).mp hself
      · intro k named hv hnamed n s hs
        have hself := hvalues k _ hv
        rw [sanitizeKeyword_named hnamed, Json.obj.injEq, mapValues_eq_self_iff] at hself
        exact (ihNamed k named hv n s hs).mp (hself n s hs)
    · intro h
      cases h with
      | leaf _ _ hobj => cases hobj
      | node hschema htitle hplain hnamed =>
        refine ⟨hschema, htitle, fun k v hv => ?_⟩
        -- Data is copied, a map of schemas is entered, all else is cleaned as a schema.
        by_cases hd : k ∈ DATA_KEYWORDS
        · exact sanitizeKeyword_data hd v
        · by_cases hn : k ∈ NAMED_SUBSCHEMA_CONTAINERS
          · cases v with
            | obj named =>
              rw [sanitizeKeyword_named hn, Json.obj.injEq, mapValues_eq_self_iff]
              exact fun n s hs => (ihNamed k named hv n s hs).mpr (hnamed k named hv hn n s hs)
            | _ => exact sanitizeKeyword_named_other hn rfl
          · rw [sanitizeKeyword_of_plain hd hn]
            exact (ih k v hv).mpr (hplain k v hv hd hn)

/-! ## Where the pass does what it is for -/

/-- At every schema node the values of keywords that are no schemas are inert. -/
inductive Clean : Json → Prop where
  | leaf {v : Json} : v.asArray = none → v.asObject = none → Clean v
  | items {items : List Json} : (∀ v ∈ items, Clean v) → Clean (.arr items)
  | node {map : JsonObject} :
      (∀ k v, (k, v) ∈ nodeFields map → k ∈ SUBSCHEMA_KEYWORDS → Clean v) →
      (∀ k named, (k, .obj named) ∈ nodeFields map → k ∈ NAMED_SUBSCHEMA_CONTAINERS →
        ∀ n s, (n, s) ∈ named → Clean s) →
      (∀ k v, (k, v) ∈ nodeFields map → k ∉ SUBSCHEMA_KEYWORDS → k ∉ NAMED_SUBSCHEMA_CONTAINERS →
        k ∉ DATA_KEYWORDS → Inert v) → Clean (.obj map)

theorem subschema_is_plain {key : String} (h : key ∈ SUBSCHEMA_KEYWORDS) :
    key ∉ DATA_KEYWORDS ∧ key ∉ NAMED_SUBSCHEMA_CONTAINERS := by
  revert key
  decide

/-- The fields of the node itself, a folded title apart. -/
theorem mem_nodeFields {map : JsonObject} {k : String} {v : Json} (h : (k, v) ∈ nodeFields map) :
    (k, v) ∈ map ∨ ∃ s, v = .str s := by
  rcases mem_foldTitleIntoDescription h with ⟨hv, -⟩ | ⟨-, hs⟩
  · exact Or.inl ((mem_remove_iff map _ _).mp hv).1
  · exact Or.inr hs

theorem strips_leaf {v : Json} (harr : v.asArray = none) (hobj : v.asObject = none) :
    Strips v (sanitizeValueRecursive v) := by
  cases v with
  | bool b =>
    cases b with
    | true => exact .whole
    | false => exact .leaf (by simp) rfl rfl
  | arr items => cases harr
  | obj map => cases hobj
  | _ => exact .leaf nofun rfl rfl

theorem strips_of_clean {value : Json} (h : Clean value) :
    Strips value (sanitizeValueRecursive value) := by
  induction value using Json.walkTwo with
  | leaf v harr hobj => exact strips_leaf harr hobj
  | arr items ih =>
    cases h with
    | leaf harr => cases harr
    | items h =>
      rw [sanitizeValueRecursive_arr]
      exact .items sanitizeValueRecursive fun v hv => ih v hv (h v hv)
  | obj map ih ihNamed =>
    cases h with
    | leaf _ hobj => cases hobj
    | node hsub hnamed hother =>
      rw [sanitizeValueRecursive_obj]
      apply Strips.node sanitizeKeyword fun _ _ s => sanitizeValueRecursive s
      · intro k v hv hk
        obtain ⟨hd, hn⟩ := subschema_is_plain hk
        rw [sanitizeKeyword_of_plain hd hn]
        -- A description that was folded from the title is not in the map.
        rcases mem_nodeFields hv with hin | ⟨s, rfl⟩
        · exact ih k v hin (hsub k v hv hk)
        · exact strips_leaf rfl rfl
      · exact fun k named _ hk => sanitizeKeyword_named hk named
      · intro k named hv hk n s hs
        rcases mem_nodeFields hv with hin | ⟨s', he⟩
        · exact ihNamed k named hin n s hs (hnamed k named hv hk n s hs)
        · cases he
      · intro k v hv hk hobj
        by_cases hn : k ∈ NAMED_SUBSCHEMA_CONTAINERS
        · exact sanitizeKeyword_named_other hn (hobj hn)
        · by_cases hd : k ∈ DATA_KEYWORDS
          · exact sanitizeKeyword_data hd v
          · rw [sanitizeKeyword_of_plain hd hn]
            exact (sanitizeValueRecursive_eq_self_iff v).mpr (hother k v hv hk hn hd)

theorem clean_of_strips {value : Json} (h : Strips value (sanitizeValueRecursive value)) :
    Clean value := by
  induction value using Json.walkTwo with
  | leaf v harr hobj => exact .leaf harr hobj
  | arr items ih =>
    rw [sanitizeValueRecursive_arr] at h
    generalize hclean : Json.arr (items.map sanitizeValueRecursive) = clean at h
    cases h with
    | leaf _ harr => cases harr
    | items f hf =>
      have hsame := List.map_inj_left.mp (Json.arr.inj hclean)
      exact .items fun v hv => ih v hv (hsame v hv ▸ hf v hv)
  | obj map ih ihNamed =>
    rw [sanitizeValueRecursive_obj] at h
    generalize hclean : Json.obj (sanitizeSchemaNode map) = clean at h
    cases h with
    | leaf _ _ hobj => cases hobj
    | node f g hsub hcontainer hnamed hother =>
      have hsame := (mapValues_eq_iff _ _ _).mp (Json.obj.inj hclean)
      apply Clean.node
      · intro k v hv hk
        rcases mem_nodeFields hv with hin | ⟨s, rfl⟩
        · obtain ⟨hd, hn⟩ := subschema_is_plain hk
          apply ih k v hin
          rw [← sanitizeKeyword_of_plain hd hn, hsame k v hv]
          exact hsub k v hv hk
        · exact .leaf rfl rfl
      · intro k named hv hk n s hs
        rcases mem_nodeFields hv with hin | ⟨s', he⟩
        · apply ihNamed k named hin n s hs
          have hvalues := (sanitizeKeyword_named hk named).symm.trans
            ((hsame k _ hv).trans (hcontainer k named hv hk))
          rw [(mapValues_eq_iff _ _ _).mp (Json.obj.inj hvalues) n s hs]
          exact hnamed k named hv hk n s hs
        · cases he
      · intro k v hv hk hn hd
        apply (sanitizeValueRecursive_eq_self_iff v).mp
        rw [← sanitizeKeyword_of_plain hd hn, hsame k v hv]
        exact hother k v hv hk fun h => absurd h hn

/-- The pass touches schemas only, exactly where no keyword that is none has a
value that could be taken for one. -/
theorem strips_iff_clean (schema : JsonObject) :
    Strips (.obj schema) (.obj (stripMetaFields schema)) ↔ Clean (.obj schema) := by
  rw [stripMetaFields, ← sanitizeValueRecursive_obj]
  exact ⟨clean_of_strips, strips_of_clean⟩

/-- A schema with a property that clients may not write. -/
def readOnlyProperty : JsonObject :=
  [("properties", .obj [("id", .obj [("readOnly", .bool true)])])]

/-- A flag that is `true` is taken for a schema that accepts anything. -/
theorem strip_replaces_flag :
    ¬ Strips (.obj readOnlyProperty) (.obj (stripMetaFields readOnlyProperty)) := by
  intro h
  rw [stripMetaFields, ← sanitizeValueRecursive_obj] at h
  cases clean_of_strips h with
  | leaf _ hobj => cases hobj
  | node _ hnamed _ =>
    have hid := hnamed "properties" _ List.mem_cons_self (by decide) "id" _ List.mem_cons_self
    cases hid with
    | leaf _ hobj => cases hobj
    | node _ _ hother =>
      have hflag := hother "readOnly" _ List.mem_cons_self (by decide) (by decide) (by decide)
      cases hflag with
      | leaf htrue => exact htrue rfl

end McpFramework.Sanitize
