import McpFramework.Capability.Acceptance
import McpFramework.Capability.Flattening

/-!
# Capability — TaggedUnion

The flattening of a tagged union: a `oneOf` whose variants are objects told
apart by one property with a `const`. What the loop over the variants gathers
is said as lookups, one variant after the other, and the flat schema is read
off at the end.
-/

namespace McpFramework.Sanitize

open Lib BTreeMap Json

variable (toJson : Json → String)

/-! ## The unions -/

/-- An object variant whose `tag` is the string `label`. -/
structure IsVariant (tag label : String) (variant : JsonObject) : Prop where
  sorted : Sorted (propertiesOf (.obj variant))
  objects : ∀ name schema, (name, schema) ∈ propertiesOf (.obj variant) → ∃ map, schema = .obj map
  tagged : ∃ schema, get (propertiesOf (.obj variant)) tag = some schema ∧
    schema.get "const" = some (.str label)
  plain : ∀ name schema, (name, schema) ∈ propertiesOf (.obj variant) → name ≠ tag →
    isConst schema = false
  requiresTag : tag ∈ requiredNames variant

/-- A root `oneOf` of variants with pairwise distinct labels, and no properties
beside it. -/
structure TaggedUnion (tag : String) (schema : JsonObject)
    (variants : List (String × JsonObject)) : Prop where
  oneOf : get schema "oneOf" = some (.arr (variants.map fun v => .obj v.2))
  nonempty : variants ≠ []
  distinct : (variants.map (·.1)).Nodup
  variant : ∀ v ∈ variants, IsVariant tag v.1 v.2
  bare : get schema "properties" = none

def descriptionOf (map : JsonObject) : Option String := nonblank (get map "description")

/-- The schemas a property has, in variant order. -/
def occurrences (variants : List (String × JsonObject)) (name : String) : List JsonObject :=
  variants.filterMap fun v => (get (propertiesOf (.obj v.2)) name).bind Json.asObject

/-- The labels of the variants that require a property. -/
def requiring (variants : List (String × JsonObject)) (name : String) : List String :=
  (variants.filter fun v => (requiredNames v.2).contains name).map (·.1)

/-- Those among them that declare it. -/
def declaring (variants : List (String × JsonObject)) (name : String) : List String :=
  (variants.filter fun v => containsKey (propertiesOf (.obj v.2)) name &&
    (requiredNames v.2).contains name).map (·.1)

/-! ## One property -/

theorem propStep_requiredBy (label : String) (variantRequired : List String) (st : Flattening)
    (e : String × Json) (hconst : isConst e.2 = false) (name : String)
    (hfresh : ∀ labels, get st.requiredBy e.1 = some labels → label ∉ labels) :
    get (propStep toJson (some (.str label)) variantRequired st e).requiredBy name =
      if name = e.1 ∧ variantRequired.contains e.1 = true then
        some ((get st.requiredBy e.1).getD [] ++ [label])
      else get st.requiredBy name := by
  have hnone : ¬ (e.2.get "const").isSome = true := by simpa [isConst] using hconst
  unfold propStep
  by_cases hreq : variantRequired.contains e.1 = true
  · have hentry : ((get st.requiredBy e.1).getD []).contains label = false := by
      cases hold : get st.requiredBy e.1 with
      | none => rfl
      | some labels => simpa using hfresh labels hold
    simp only [if_neg hnone, if_pos hreq, valueLabel, hentry, Bool.false_eq_true, if_false,
      get_insert, and_iff_left hreq]
  · simp only [if_neg hnone, if_neg hreq, if_neg (fun h : _ ∧ _ => hreq h.2)]

/-! ## One variant -/

/-- Who requires the properties of a variant, after the second pass over it. -/
theorem foldl_propStep_requiredBy (label : String) (variantRequired : List String)
    {props : JsonObject} (hsorted : Sorted props) (st : Flattening)
    (hfresh : ∀ name ∈ keys props, ∀ labels, get st.requiredBy name = some labels →
      label ∉ labels) (name : String) :
    get (props.foldl (propStep toJson (some (.str label)) variantRequired) st).requiredBy name =
      if (plainProperty props name).isSome = true ∧ variantRequired.contains name = true then
        some ((get st.requiredBy name).getD [] ++ [label])
      else get st.requiredBy name := by
  induction props generalizing st with
  | nil => simp [plainProperty]
  | cons e props ih =>
    obtain ⟨hhead, htail⟩ := List.pairwise_cons.mp hsorted
    have hlater : e.1 ∉ keys props := by
      intro h
      obtain ⟨e', he', hk⟩ := List.mem_map.mp h
      exact (hhead e' he').ne hk.symm
    rw [List.foldl_cons, plainProperty_cons]
    cases hconst : isConst e.2 with
    | true =>
      rw [propStep_const toJson hconst]
      rw [ih htail st fun n hn => hfresh n (List.mem_cons_of_mem _ hn)]
      by_cases hname : e.1 = name
      · subst hname
        simp [plainProperty_absent hlater]
      · simp only [if_neg hname]
    | false =>
      have hfreshHead := hfresh e.1 List.mem_cons_self
      have hreq := propStep_requiredBy toJson label variantRequired st e hconst
      have hfreshTail : ∀ n ∈ keys props, ∀ labels,
          get (propStep toJson (some (.str label)) variantRequired st e).requiredBy n =
            some labels → label ∉ labels := by
        intro n hn labels hlabels
        rw [hreq n hfreshHead, if_neg] at hlabels
        · exact hfresh n (List.mem_cons_of_mem _ hn) labels hlabels
        · rintro ⟨rfl, -⟩
          exact hlater hn
      rw [ih htail _ hfreshTail, hreq name hfreshHead]
      by_cases hname : e.1 = name
      · subst hname
        simp [plainProperty_absent hlater]
      · have hname' : name ≠ e.1 := fun h => hname h.symm
        simp only [if_neg hname, hname', false_and, if_false]

theorem foldl_tagStep_plain (description : Option Json) {props : JsonObject}
    (h : ∀ e ∈ props, isConst e.2 = false) (s : Flattening × Option Json) :
    props.foldl (tagStep description) s = s := by
  induction props generalizing s with
  | nil => rfl
  | cons e props ih =>
    rw [List.foldl_cons, tagStep_const (h e List.mem_cons_self)]
    exact ih (fun e' he' => h e' (List.mem_cons_of_mem _ he')) s

/-- The first pass over a variant finds its label. -/
theorem foldl_tagStep_variant {tag label : String} {variant : JsonObject}
    (hvariant : IsVariant tag label variant) (st : Flattening)
    (hkey : st.tagKey = none ∨ st.tagKey = some tag)
    (hfresh : ∀ t ∈ st.tagEntries, valueEq t.1 (.str label) = false) :
    ∃ description,
      (propertiesOf (.obj variant)).foldl (tagStep (get variant "description")) (st, none) =
        ({ st with
            tagKey := some tag
            tagPropDescription := description
            tagEntries := st.tagEntries ++ [(.str label, get variant "description")] },
          some (.str label)) := by
  obtain ⟨schema, hschema, hconst⟩ := hvariant.tagged
  obtain ⟨before, after, hsplit⟩ := List.append_of_mem (mem_of_get hschema)
  have hdistinct := hvariant.sorted
  rw [hsplit] at hdistinct
  obtain ⟨-, hright, hcross⟩ := List.pairwise_append.mp hdistinct
  have hbefore : ∀ e ∈ before, isConst e.2 = false := by
    intro e he
    apply hvariant.plain e.1 e.2 (by rw [hsplit]; exact List.mem_append_left _ he)
    exact (hcross e he _ List.mem_cons_self).ne
  have hafter : ∀ e ∈ after, isConst e.2 = false := by
    intro e he
    apply hvariant.plain e.1 e.2
      (by rw [hsplit]; exact List.mem_append_right _ (List.mem_cons_of_mem _ he))
    exact ((List.pairwise_cons.mp hright).1 e he).ne'
  have hany : (st.tagEntries.any fun t => valueEq t.1 (.str label)) = false := by
    rw [List.any_eq_false]
    intro t ht
    rw [hfresh t ht]
    decide
  have hget : st.tagKey.getD tag = tag := by
    rcases hkey with hkey | hkey
    · rw [hkey]; rfl
    · rw [hkey]; rfl
  rw [hsplit, List.foldl_append, List.foldl_cons, foldl_tagStep_plain _ hbefore,
    foldl_tagStep_plain _ hafter]
  refine ⟨st.tagPropDescription.or (nonblankDescription schema), ?_⟩
  simp only [tagStep, hconst, hget, ne_eq, not_true_eq_false, if_false, hany, Bool.false_eq_true]

/-! ## The loop over the variants -/

/-- What is kept of a property: the first schema it had, with the first
description that says something. -/
def Merged (schemas : List JsonObject) (kept : Option Json) : Prop :=
  (schemas = [] → kept = none) ∧
    ∀ first, schemas.head? = some first → ∃ map, kept = some (.obj map) ∧
      SameButDescription map first ∧ descriptionOf map = schemas.findSome? descriptionOf

theorem nonblank_of_nonblank {value : Option Json} {s : String} (h : nonblank value = some s) :
    nonblank (some (.str s)) = some s := by
  obtain ⟨-, hs⟩ := Option.filter_eq_some_iff.mp h
  exact Option.filter_eq_some_iff.mpr ⟨rfl, hs⟩

theorem merged_append {schemas : List JsonObject} {kept : Option Json}
    (h : Merged schemas kept) (map : JsonObject) :
    Merged (schemas ++ [map]) (some (mergedSchema kept (.obj map))) := by
  refine ⟨fun hnil => absurd hnil (by simp), fun first hfirst => ?_⟩
  cases schemas with
  | nil =>
    obtain rfl : map = first := by simpa using hfirst
    rw [h.1 rfl]
    exact ⟨map, rfl, rfl, by simp⟩
  | cons first' rest =>
    obtain rfl : first' = first := by simpa using hfirst
    obtain ⟨keptMap, rfl, hsame, hdescription⟩ := h.2 first' rfl
    rw [List.findSome?_append, ← hdescription, List.findSome?_singleton]
    have hkept : nonblankDescription (.obj keptMap) = descriptionOf keptMap := rfl
    have hnew : nonblankDescription (.obj map) = descriptionOf map := rfl
    simp only [mergedSchema, hkept, hnew]
    cases hk : descriptionOf keptMap with
    | some d => exact ⟨keptMap, rfl, hsame, hk⟩
    | none =>
      cases hn : descriptionOf map with
      | none => exact ⟨keptMap, rfl, hsame, hk⟩
      | some d =>
        refine ⟨_, rfl, (remove_insert_self keptMap _ _).trans hsame, ?_⟩
        rw [descriptionOf, get_insert_self, nonblank_of_nonblank hn]
        rfl

/-- What the loop has gathered of the variants it has seen. -/
structure Scanned (tag : String) (done : List (String × JsonObject)) (st : Flattening) :
    Prop where
  tagKey : st.tagKey = if done = [] then none else some tag
  tags : st.tagEntries = done.map fun v : String × JsonObject =>
    (Json.str v.1, BTreeMap.get v.2 "description")
  untouched : get st.mergedProps tag = none
  merged : ∀ name, name ≠ tag → Merged (occurrences done name) (get st.mergedProps name)
  requiredBy : ∀ name, get st.requiredBy name =
    if name = tag ∨ declaring done name = [] then none else some (declaring done name)
  sorted : Sorted st.requiredBy
  sortedProps : Sorted st.mergedProps

theorem scanned_empty (tag : String) : Scanned tag [] Flattening.empty where
  tagKey := rfl
  tags := rfl
  untouched := rfl
  merged := fun _ _ => ⟨fun _ => rfl, nofun⟩
  requiredBy := fun name => by simp [Flattening.empty, declaring]
  sorted := List.Pairwise.nil
  sortedProps := List.Pairwise.nil

theorem sorted_mergedProps_foldl {variantTag : Option Json} {variantRequired : List String}
    (props : JsonObject) {st : Flattening} (h : Sorted st.mergedProps) :
    Sorted (props.foldl (propStep toJson variantTag variantRequired) st).mergedProps := by
  induction props generalizing st with
  | nil => exact h
  | cons e props ih =>
    apply ih
    rw [(propStep_frame toJson variantTag variantRequired st e).2]
    split_ifs
    · exact h
    · exact h.insert _ _

theorem sorted_requiredBy_propStep {variantTag : Option Json} {variantRequired : List String}
    {st : Flattening} (h : Sorted st.requiredBy) (e : String × Json) :
    Sorted (propStep toJson variantTag variantRequired st e).requiredBy := by
  unfold propStep
  by_cases hconst : (e.2.get "const").isSome = true
  · simpa only [if_pos hconst] using h
  · cases variantTag with
    | none => simpa only [if_neg hconst] using h
    | some tag =>
      by_cases hreq : variantRequired.contains e.1 = true
      · simp only [if_neg hconst, if_pos hreq]
        exact h.insert _ _
      · simpa only [if_neg hconst, if_neg hreq] using h

theorem sorted_requiredBy_foldl {variantTag : Option Json} {variantRequired : List String}
    (props : JsonObject) {st : Flattening} (h : Sorted st.requiredBy) :
    Sorted (props.foldl (propStep toJson variantTag variantRequired) st).requiredBy := by
  induction props generalizing st with
  | nil => exact h
  | cons e props ih => exact ih (sorted_requiredBy_propStep toJson h e)

theorem tagEntries_foldl_propStep {variantTag : Option Json} {variantRequired : List String}
    (props : JsonObject) (st : Flattening) :
    (props.foldl (propStep toJson variantTag variantRequired) st).tagEntries = st.tagEntries := by
  induction props generalizing st with
  | nil => rfl
  | cons e props ih => rw [List.foldl_cons, ih, propStep_tagEntries]

section Step

variable {tag label : String} {variant : JsonObject} (hvariant : IsVariant tag label variant)

include hvariant in
/-- In a variant every property but the tag is plain, and an object. -/
theorem plainProperty_variant (name : String) :
    plainProperty (propertiesOf (.obj variant)) name =
      if name = tag then none else get (propertiesOf (.obj variant)) name := by
  unfold plainProperty
  split_ifs with hname
  · obtain ⟨schema, hschema, hconst⟩ := hvariant.tagged
    subst hname
    rw [hschema]
    simp [Option.filter, isConst, hconst]
  · cases hget : get (propertiesOf (.obj variant)) name with
    | none => rfl
    | some schema => simp [Option.filter, hvariant.plain name schema (mem_of_get hget) hname]

theorem occurrences_append (done : List (String × JsonObject)) (name : String) :
    occurrences (done ++ [(label, variant)]) name =
      occurrences done name ++
        ((get (propertiesOf (.obj variant)) name).bind Json.asObject).toList := by
  unfold occurrences
  rw [List.filterMap_append]
  cases h : (get (propertiesOf (.obj variant)) name).bind Json.asObject <;> simp [h]

theorem declaring_append (done : List (String × JsonObject)) (name : String) :
    declaring (done ++ [(label, variant)]) name =
      declaring done name ++
        if containsKey (propertiesOf (.obj variant)) name = true ∧
            (requiredNames variant).contains name = true then [label] else [] := by
  unfold declaring
  rw [List.filter_append, List.map_append]
  congr 1
  cases hc : containsKey (propertiesOf (.obj variant)) name <;>
    cases hr : (requiredNames variant).contains name <;>
    simp only [List.filter_cons, List.filter_nil, hc, hr, Bool.and_true, Bool.and_false, if_true,
      if_false, and_self, and_true, and_false, Bool.false_eq_true, List.map_cons, List.map_nil]

theorem mem_declaring {done : List (String × JsonObject)} {name label : String}
    (h : label ∈ declaring done name) : label ∈ done.map (·.1) := by
  obtain ⟨v, hv, rfl⟩ := List.mem_map.mp h
  exact List.mem_map_of_mem (List.mem_filter.mp hv).1

include hvariant in
/-- One more variant of the union. -/
theorem scanned_variantStep {done : List (String × JsonObject)} {st : Flattening}
    (h : Scanned tag done st) (hfresh : label ∉ done.map (·.1)) :
    Scanned tag (done ++ [(label, variant)]) (variantStep toJson st (.obj variant)) := by
  have hkey : st.tagKey = none ∨ st.tagKey = some tag := by
    rw [h.tagKey]
    split_ifs
    · exact Or.inl rfl
    · exact Or.inr rfl
  have hentries : ∀ t ∈ st.tagEntries, valueEq t.1 (.str label) = false := by
    intro t ht
    rw [h.tags] at ht
    obtain ⟨v, hv, rfl⟩ := List.mem_map.mp ht
    rw [valueEq_str, beq_eq_false_iff_ne]
    rintro rfl
    exact hfresh (List.mem_map_of_mem hv)
  -- The tag is gathered first, then the properties are folded into that state.
  rcases variantStep_eq toJson st (.obj variant) with ⟨-, hnil⟩ | ⟨vObj, he, hstep⟩
  · obtain ⟨schema, hschema, -⟩ := hvariant.tagged
    rw [hnil] at hschema
    cases hschema
  cases he
  obtain ⟨description, htag⟩ := foldl_tagStep_variant hvariant st hkey hentries
  rw [hstep, htag]
  have hlabels : ∀ name ∈ keys (propertiesOf (.obj variant)), ∀ labels,
      get st.requiredBy name = some labels → label ∉ labels := by
    intro name _ labels hlabels hin
    rw [h.requiredBy] at hlabels
    split_ifs at hlabels
    cases hlabels
    exact hfresh (mem_declaring hin)
  have hmergedProps := foldl_propStep_mergedProps toJson (some (.str label))
    (requiredNames variant) hvariant.sorted
    { st with
      tagKey := some tag
      tagPropDescription := description
      tagEntries := st.tagEntries ++ [(.str label, get variant "description")] }
  have hrequiredBy := foldl_propStep_requiredBy toJson label (requiredNames variant) hvariant.sorted
    { st with
      tagKey := some tag
      tagPropDescription := description
      tagEntries := st.tagEntries ++ [(.str label, get variant "description")] } hlabels
  constructor
  · rw [(foldl_propStep toJson _ _ _ _).1, if_neg (by simp)]
  · rw [tagEntries_foldl_propStep, List.map_append, ← h.tags]
    rfl
  · -- The tag is a constant, so it never becomes a merged property.
    rw [hmergedProps tag, plainProperty_variant hvariant, if_pos rfl, h.untouched]
    rfl
  · intro name hname
    have hmerged := h.merged name hname
    rw [hmergedProps name, plainProperty_variant hvariant, if_neg hname, occurrences_append]
    cases hget : get (propertiesOf (.obj variant)) name with
    | none => simpa using hmerged
    | some schema =>
      obtain ⟨map, rfl⟩ := hvariant.objects name schema (mem_of_get hget)
      exact merged_append hmerged map
  · intro name
    rw [hrequiredBy name, plainProperty_variant hvariant, declaring_append]
    by_cases hname : name = tag
    · simp [hname, h.requiredBy]
    · have hold := h.requiredBy name
      have hdeclares : (get (propertiesOf (.obj variant)) name).isSome =
        containsKey (propertiesOf (.obj variant)) name := rfl
      simp only [hname, false_or, if_false] at hold ⊢
      rw [hold, hdeclares]
      by_cases hlisted : containsKey (propertiesOf (.obj variant)) name = true ∧
          (requiredNames variant).contains name = true
      · -- The property is required here: this label is added to those before it.
        have hne : declaring done name ++ [label] ≠ [] := by simp
        rw [if_pos hlisted, if_pos hlisted, if_neg hne]
        by_cases hempty : declaring done name = []
        · simp [hempty]
        · simp [hempty]
      · rw [if_neg hlisted, if_neg hlisted, List.append_nil]
  · exact sorted_requiredBy_foldl toJson _ h.sorted
  · exact sorted_mergedProps_foldl toJson _ h.sortedProps

end Step

/-- All variants of the union. -/
theorem scanned_variants {tag : String} {variants : List (String × JsonObject)}
    (hvariants : ∀ v ∈ variants, IsVariant tag v.1 v.2) (hdistinct : (variants.map (·.1)).Nodup) :
    Scanned tag variants
      ((variants.map fun v => Json.obj v.2).foldl (variantStep toJson) Flattening.empty) := by
  have hrun : ∀ (rest done : List (String × JsonObject)) (st : Flattening),
      (∀ v ∈ rest, IsVariant tag v.1 v.2) → ((done ++ rest).map (·.1)).Nodup →
      Scanned tag done st →
      Scanned tag (done ++ rest)
        ((rest.map fun v => Json.obj v.2).foldl (variantStep toJson) st) := by
    intro rest
    induction rest with
    | nil =>
      intro done st _ _ h
      simpa using h
    | cons v rest ih =>
      intro done st hvar hnodup h
      have hfresh : v.1 ∉ done.map (·.1) := by
        rw [List.map_append, List.map_cons] at hnodup
        exact fun hin => (List.nodup_append.mp hnodup).2.2 _ hin _ List.mem_cons_self rfl
      have hstep := scanned_variantStep toJson (hvar v List.mem_cons_self) h hfresh
      have hrest := ih (done ++ [v]) _ (fun w hw => hvar w (List.mem_cons_of_mem _ hw))
        (by rwa [List.append_assoc, List.singleton_append]) hstep
      rwa [List.append_assoc, List.singleton_append] at hrest
  exact hrun variants [] Flattening.empty hvariants hdistinct (scanned_empty tag)

/-! ## The flat schema -/

/-- A description with the variants that require the property. -/
def describedText (existing : Option String) (suffix : String) : String :=
  match existing with
  | some existing => trimEnd existing ++ " " ++ suffix
  | none => suffix

def described (tag : String) (labels : List String) (prop : JsonObject) : JsonObject :=
  insert prop "description" (.str (describedText (descriptionOf prop) (requiredSuffix tag labels)))

theorem get_describeRequired_self {tag : String} {props prop : JsonObject}
    {e : String × List String} (h : get props e.1 = some (.obj prop)) :
    get (describeRequired tag props e) e.1 = some (.obj (described tag e.2 prop)) := by
  simp only [describeRequired, h, get_insert_self]
  rfl

theorem get_describeRequired_of_ne (tag : String) (props : JsonObject) {e : String × List String}
    {name : String} (h : name ≠ e.1) :
    get (describeRequired tag props e) name = get props name := by
  unfold describeRequired
  split
  · rw [get_insert_of_ne _ _ h]
  · rfl

/-- Each property is described once. -/
theorem foldl_describeRequired (tag : String) {requiredBy : BTreeMap String (List String)}
    (hsorted : Sorted requiredBy) (props : JsonObject) (name : String) :
    (get requiredBy name = none →
        get (requiredBy.foldl (describeRequired tag) props) name = get props name) ∧
      ∀ labels prop, get requiredBy name = some labels → get props name = some (.obj prop) →
        get (requiredBy.foldl (describeRequired tag) props) name =
          some (.obj (described tag labels prop)) := by
  induction requiredBy generalizing props with
  | nil => exact ⟨fun _ => rfl, nofun⟩
  | cons e requiredBy ih =>
    obtain ⟨hhead, htail⟩ := List.pairwise_cons.mp hsorted
    obtain ⟨hnone, hsome⟩ := ih htail (describeRequired tag props e)
    rw [List.foldl_cons, get_cons]
    by_cases hname : e.1 = name
    · subst hname
      have hlater : get requiredBy e.1 = none := by
        rw [get_eq_none_iff]
        intro hin
        obtain ⟨e', he', hk⟩ := List.mem_map.mp hin
        exact (hhead e' he').ne hk.symm
      rw [if_pos rfl]
      refine ⟨nofun, fun labels prop hlabels hprop => ?_⟩
      cases hlabels
      rw [hnone hlater, get_describeRequired_self hprop]
    · rw [if_neg hname]
      have hframe := get_describeRequired_of_ne tag props (fun h => hname h.symm)
      exact ⟨fun h => (hnone h).trans hframe,
        fun labels prop hlabels hprop => hsome labels prop hlabels (hframe.trans hprop)⟩

/-- The union, as a root `oneOf`: the rest of the root and exactly one variant. -/
def acceptsUnion (schema : JsonObject) (variants : List (String × JsonObject)) (x : Json) : Prop :=
  accepts (.obj schema) x = true ∧ (variants.countP fun v => accepts (.obj v.2) x) = 1

section Flat

variable {tag : String} {schema : JsonObject} {variants : List (String × JsonObject)}
  (h : TaggedUnion tag schema variants)

include h

theorem TaggedUnion.flatten_eq :
    flattenTopLevelCombinator toJson schema =
      flattenVariants toJson (remove schema "oneOf") (variants.map fun v => Json.obj v.2) := by
  apply Sanitize.flatten_eq toJson _ h.oneOf
  simp [rootCombinator, COMBINATORS, containsKey, h.oneOf]

theorem TaggedUnion.scanned :
    Scanned tag variants
      ((variants.map fun v => Json.obj v.2).foldl (variantStep toJson) Flattening.empty) :=
  scanned_variants toJson h.variant h.distinct

/-- The properties of the flat schema: what was gathered, the discriminator, and
who requires what. -/
theorem TaggedUnion.exists_scan :
    ∃ st, Scanned tag variants st ∧
      propertiesOf (.obj (flattenTopLevelCombinator toJson schema)) =
        st.requiredBy.foldl (describeRequired tag)
          (insert st.mergedProps tag (.obj (discriminant toJson st))) ∧
      get (flattenTopLevelCombinator toJson schema) "required" = some (.arr [.str tag]) := by
  have hscan := h.scanned toJson
  refine ⟨_, hscan, ?_, ?_⟩
  · rw [h.flatten_eq toJson, propertiesOf_flattenVariants, flatProperties, hscan.tagKey,
      if_neg h.nonempty]
  · rw [h.flatten_eq toJson]
    simp [flattenVariants, flatProperties, hscan.tagKey, h.nonempty]

omit h in
theorem get_discriminant_enum (st : Flattening) :
    get (discriminant toJson st) "enum" = some (.arr (st.tagEntries.map (·.1))) := by
  unfold discriminant
  dsimp only
  split
  · rw [get_insert_of_ne _ _ (by decide)]
    rfl
  · rfl

omit h in
theorem mem_discriminant {st : Flattening} {k : String} {v : Json}
    (hv : (k, v) ∈ discriminant toJson st) :
    k = "description" ∨ (k = "enum" ∧ v = .arr (st.tagEntries.map (·.1))) ∨
      (k = "type" ∧ v = .str "string") := by
  have hbase : (k, v) ∈ ([("enum", .arr (st.tagEntries.map (·.1))), ("type", .str "string")] :
      JsonObject) → (k = "enum" ∧ v = .arr (st.tagEntries.map (·.1))) ∨
      (k = "type" ∧ v = .str "string") := by
    simp
  unfold discriminant at hv
  dsimp only at hv
  split at hv
  · rcases mem_of_mem_insert hv with he | hv
    · exact Or.inl (Prod.mk.inj he).1
    · exact Or.inr (hbase hv)
  · exact Or.inr (hbase hv)

/-- The discriminator has the labels in variant order. -/
theorem TaggedUnion.get_tag :
    ∃ st, st.tagEntries.map (·.1) = variants.map (fun v => Json.str v.1) ∧
      get (propertiesOf (.obj (flattenTopLevelCombinator toJson schema))) tag =
        some (.obj (discriminant toJson st)) := by
  obtain ⟨st, hscan, hprops, -⟩ := h.exists_scan toJson
  refine ⟨st, ?_, ?_⟩
  · rw [hscan.tags, List.map_map]
    rfl
  · have hnone : get st.requiredBy tag = none := by
      rw [hscan.requiredBy, if_pos (Or.inl rfl)]
    rw [hprops, (foldl_describeRequired tag hscan.sorted _ tag).1 hnone, get_insert_self]

omit h in
theorem declaring_of_absent {name : String} (hvariants : ∀ v ∈ variants, IsVariant tag v.1 v.2)
    (habsent : occurrences variants name = []) : declaring variants name = [] := by
  unfold declaring
  rw [List.map_eq_nil_iff, List.filter_eq_nil_iff]
  intro v hv hboth
  rw [Bool.and_eq_true] at hboth
  obtain ⟨schema, hschema⟩ := Option.isSome_iff_exists.mp hboth.1
  obtain ⟨map, rfl⟩ := (hvariants v hv).objects name schema (mem_of_get hschema)
  have hin : map ∈ occurrences variants name :=
    List.mem_filterMap.mpr ⟨v, hv, by rw [hschema]; rfl⟩
  rw [habsent] at hin
  cases hin

/-- Any other property is the first of its schemas, with the first description
and the labels of the variants that declare and require it. -/
theorem TaggedUnion.get_property {name : String} (hname : name ≠ tag) :
    (occurrences variants name = [] →
      get (propertiesOf (.obj (flattenTopLevelCombinator toJson schema))) name = none) ∧
    ∀ first, (occurrences variants name).head? = some first → ∃ map,
      SameButDescription map first ∧
      descriptionOf map = (occurrences variants name).findSome? descriptionOf ∧
      get (propertiesOf (.obj (flattenTopLevelCombinator toJson schema))) name =
        some (.obj (if declaring variants name = [] then map
          else described tag (declaring variants name) map)) := by
  obtain ⟨st, hscan, hprops, -⟩ := h.exists_scan toJson
  obtain ⟨habsent, hpresent⟩ := hscan.merged name hname
  obtain ⟨hnone, hsome⟩ := foldl_describeRequired tag hscan.sorted
    (insert st.mergedProps tag (.obj (discriminant toJson st))) name
  have hrequired := hscan.requiredBy name
  simp only [hname, false_or] at hrequired
  rw [get_insert_of_ne _ _ hname] at hnone hsome
  rw [hprops]
  constructor
  · intro hempty
    rw [declaring_of_absent h.variant hempty, if_pos rfl] at hrequired
    rw [hnone hrequired, habsent hempty]
  · intro first hfirst
    obtain ⟨map, hkept, hsame, hdescription⟩ := hpresent first hfirst
    refine ⟨map, hsame, hdescription, ?_⟩
    split_ifs at hrequired ⊢ with hlist
    · rw [hnone hrequired, hkept]
    · exact hsome _ map hrequired hkept

/-! ## The properties of the flat schema -/

theorem TaggedUnion.mem_keys_iff {name : String} (hname : name ≠ tag) :
    name ∈ keys (propertiesOf (.obj (flattenTopLevelCombinator toJson schema))) ↔
      ∃ v ∈ variants, name ∈ keys (propertiesOf (.obj v.2)) := by
  obtain ⟨habsent, hpresent⟩ := h.get_property toJson hname
  have hoccurs : (∃ v ∈ variants, name ∈ keys (propertiesOf (.obj v.2))) ↔
      occurrences variants name ≠ [] := by
    constructor
    · rintro ⟨v, hv, hin⟩ hempty
      obtain ⟨schema, hschema⟩ := exists_get hin
      obtain ⟨map, rfl⟩ := (h.variant v hv).objects name schema (mem_of_get hschema)
      have hmem : map ∈ occurrences variants name :=
        List.mem_filterMap.mpr ⟨v, hv, by rw [hschema]; rfl⟩
      rw [hempty] at hmem
      cases hmem
    · intro hne
      obtain ⟨map, hmap⟩ := List.exists_mem_of_ne_nil _ hne
      obtain ⟨v, hv, hget⟩ := List.mem_filterMap.mp hmap
      obtain ⟨schema, hschema, -⟩ := Option.bind_eq_some_iff.mp hget
      exact ⟨v, hv, mem_keys_of_get hschema⟩
  rw [hoccurs]
  constructor
  · intro hin hempty
    exact (get_eq_none_iff _ _).mp (habsent hempty) hin
  · intro hne
    obtain ⟨first, rest, hcons⟩ := List.exists_cons_of_ne_nil hne
    obtain ⟨map, -, -, hget⟩ := hpresent first (by rw [hcons]; rfl)
    exact mem_keys_of_get hget

end Flat

/-! ## What is kept of a tagged union -/

/-- The first description that says something, with the variants that require
the property. -/
def DescribedBy (tag : String) (variants : List (String × JsonObject)) (name : String)
    (prop : JsonObject) : Prop :=
  (requiring variants name = [] →
    descriptionOf prop = (occurrences variants name).findSome? descriptionOf) ∧
  (requiring variants name ≠ [] →
    get prop "description" = some (.str (describedText
      ((occurrences variants name).findSome? descriptionOf)
      (requiredSuffix tag (requiring variants name)))))

/-- A member under a name of the flat schema is one the variant declares. -/
def MembersDeclared (flat variant members : JsonObject) : Prop :=
  ∀ name ∈ keys members, name ∈ keys (propertiesOf (.obj flat)) →
    name ∈ keys (propertiesOf (.obj variant))

/-- What the flattening of a tagged union keeps of it. -/
structure KeepsUnion (tag : String) (schema : JsonObject) (variants : List (String × JsonObject))
    (flat : JsonObject) : Prop where
  tagEnum : ∃ prop, get (propertiesOf (.obj flat)) tag = some (.obj prop) ∧
    get prop "enum" = some (.arr (variants.map fun v => .str v.1))
  required : get flat "required" = some (.arr [.str tag])
  names : ∀ name, name ≠ tag → (name ∈ keys (propertiesOf (.obj flat)) ↔
    ∃ v ∈ variants, name ∈ keys (propertiesOf (.obj v.2)))
  schemas : ∀ name flatSchema, name ≠ tag → get (propertiesOf (.obj flat)) name = some flatSchema →
    ∃ prop first, flatSchema = .obj prop ∧ (occurrences variants name).head? = some first ∧
      SameButDescription prop first
  /-- For a property that no variant requires without declaring it. -/
  descriptions : ∀ name prop, name ≠ tag →
    get (propertiesOf (.obj flat)) name = some (.obj prop) →
    (∀ v ∈ variants, name ∈ requiredNames v.2 → name ∈ keys (propertiesOf (.obj v.2))) →
    DescribedBy tag variants name prop
  /-- For an object whose members the variant that accepts it declares. -/
  acceptance : (∀ name, name ≠ tag → ∀ a ∈ occurrences variants name,
      ∀ b ∈ occurrences variants name, SameButDescription a b) →
    ∀ members, acceptsUnion schema variants (.obj members) →
      (∀ v ∈ variants, accepts (.obj v.2) (.obj members) = true →
        MembersDeclared flat v.2 members) →
      accepts (.obj flat) (.obj members) = true

section Keeps

variable {tag : String} {schema : JsonObject} {variants : List (String × JsonObject)}
  (h : TaggedUnion tag schema variants)

theorem requiring_eq_declaring {name : String}
    (hdeclared : ∀ v ∈ variants, name ∈ requiredNames v.2 → name ∈ keys (propertiesOf (.obj v.2))) :
    requiring variants name = declaring variants name := by
  unfold requiring declaring
  congr 1
  apply List.filter_congr
  intro v hv
  cases hreq : (requiredNames v.2).contains name with
  | false => rw [Bool.and_false]
  | true =>
    have hin := hdeclared v hv (by simpa using hreq)
    rw [(containsKey_iff _ _).mpr hin, Bool.and_self]

include h in
theorem TaggedUnion.schemas {name : String} {flatSchema : Json} (hname : name ≠ tag)
    (hget : get (propertiesOf (.obj (flattenTopLevelCombinator toJson schema))) name =
      some flatSchema) :
    ∃ prop first, flatSchema = .obj prop ∧ (occurrences variants name).head? = some first ∧
      SameButDescription prop first := by
  obtain ⟨habsent, hpresent⟩ := h.get_property toJson hname
  cases hocc : occurrences variants name with
  | nil =>
    rw [habsent hocc] at hget
    cases hget
  | cons first rest =>
    obtain ⟨map, hsame, -, hmap⟩ := hpresent first (by rw [hocc]; rfl)
    rw [hget] at hmap
    cases hmap
    refine ⟨_, first, rfl, rfl, ?_⟩
    split_ifs
    · exact hsame
    · exact (remove_insert_self map _ _).trans hsame

include h in
theorem TaggedUnion.descriptions {name : String} {prop : JsonObject} (hname : name ≠ tag)
    (hprop : get (propertiesOf (.obj (flattenTopLevelCombinator toJson schema))) name =
      some (.obj prop))
    (hdeclared : ∀ v ∈ variants, name ∈ requiredNames v.2 →
      name ∈ keys (propertiesOf (.obj v.2))) : DescribedBy tag variants name prop := by
  obtain ⟨habsent, hpresent⟩ := h.get_property toJson hname
  unfold DescribedBy
  rw [requiring_eq_declaring hdeclared]
  cases hocc : occurrences variants name with
  | nil =>
    rw [habsent hocc] at hprop
    cases hprop
  | cons first rest =>
    obtain ⟨map, -, hdescription, hget⟩ := hpresent first (by rw [hocc]; rfl)
    rw [hprop] at hget
    rw [← hocc, ← hdescription]
    constructor
    · intro hempty
      rw [if_pos hempty] at hget
      cases hget
      rfl
    · intro hne
      rw [if_neg hne] at hget
      cases hget
      exact get_insert_self _ _ _

/-- An accepted object has its properties accepted. -/
theorem acceptsProperties_of_accepts {node : JsonObject} {x : Json}
    (haccepts : accepts (.obj node) x = true) : acceptsProperties (propertiesOf (.obj node)) x := by
  unfold propertiesOf
  rw [Json.get_obj]
  cases hprops : get node "properties" with
  | none => exact nofun
  | some props =>
    cases props with
    | obj map =>
      exact ((accepts_obj_iff node x).mp haccepts _ _ (mem_of_get hprops)).2 rfl map rfl
    | _ => exact nofun

theorem mem_of_accepts_required {node members : JsonObject} {name : String}
    (haccepts : accepts (.obj node) (.obj members) = true) (hname : name ∈ requiredNames node) :
    containsKey members name = true := by
  unfold requiredNames at hname
  cases hreq : get node "required" with
  | none => simp [hreq] at hname
  | some names =>
    cases names with
    | arr names =>
      have hkeyword := ((accepts_obj_iff node _).mp haccepts _ _ (mem_of_get hreq)).1 (by decide)
      simp only [hreq, Option.bind_some, Json.asArray] at hname
      exact List.all_eq_true.mp hkeyword name hname
    | _ => simp [hreq, Json.asArray] at hname

theorem eq_str_of_valueEq {label : String} {value : Json}
    (heq : valueEq (.str label) value = true) : value = .str label := by
  cases value with
  | str s =>
    rw [valueEq_str, beq_iff_eq] at heq
    rw [heq]
  | _ => cases heq

/-- Under the tag an accepted object has the label of its variant. -/
theorem tag_value {label : String} {variant members : JsonObject}
    (hvariant : IsVariant tag label variant)
    (haccepts : accepts (.obj variant) (.obj members) = true) {value : Json}
    (hvalue : get members tag = some value) : value = .str label := by
  obtain ⟨schema, hschema, hconst⟩ := hvariant.tagged
  have htag := acceptsProperties_of_accepts haccepts tag schema (mem_of_get hschema) value hvalue
  obtain ⟨map, rfl, hlabel⟩ := exists_obj_of_get hconst
  exact eq_str_of_valueEq
    (((accepts_obj_iff map value).mp htag _ _ (mem_of_get hlabel)).1 (by decide))

theorem accepts_discriminant {st : Flattening} {label : String}
    (hlabel : Json.str label ∈ st.tagEntries.map (·.1)) :
    accepts (.obj (discriminant toJson st)) (.str label) = true := by
  rw [accepts_obj_iff]
  intro k v hv
  rcases mem_discriminant toJson hv with rfl | ⟨rfl, rfl⟩ | ⟨rfl, rfl⟩
  · exact ⟨fun _ => rfl, nofun⟩
  · refine ⟨fun _ => List.any_eq_true.mpr ⟨_, hlabel, ?_⟩, nofun⟩
    rw [valueEq_str, beq_self_eq_true]
  · exact ⟨fun _ => rfl, nofun⟩

include h in
theorem TaggedUnion.sorted_properties :
    Sorted (propertiesOf (.obj (flattenTopLevelCombinator toJson schema))) := by
  obtain ⟨st, hscan, hprops, -⟩ := h.exists_scan toJson
  have hfold : ∀ (requiredBy : BTreeMap String (List String)) (props : JsonObject), Sorted props →
      Sorted (requiredBy.foldl (describeRequired tag) props) := by
    intro requiredBy
    induction requiredBy with
    | nil => exact fun _ hsorted => hsorted
    | cons e requiredBy ih =>
      intro props hsorted
      apply ih
      unfold describeRequired
      split
      · exact hsorted.insert _ _
      · exact hsorted
  rw [hprops]
  exact hfold _ _ (hscan.sortedProps.insert _ _)

include h in
/-- What a variant accepts of the properties it declares, the flat schema accepts. -/
theorem TaggedUnion.accepts_properties
    (hsame : ∀ name, name ≠ tag → ∀ a ∈ occurrences variants name,
      ∀ b ∈ occurrences variants name, SameButDescription a b)
    {v : String × JsonObject} (hv : v ∈ variants) {members : JsonObject}
    (haccepts : accepts (.obj v.2) (.obj members) = true)
    (hmembers : MembersDeclared (flattenTopLevelCombinator toJson schema) v.2 members) :
    acceptsProperties (propertiesOf (.obj (flattenTopLevelCombinator toJson schema)))
      (.obj members) := by
  intro name flatSchema hflat value hvalue
  have hget := (h.sorted_properties toJson).get_of_mem hflat
  by_cases hname : name = tag
  · subst hname
    obtain ⟨st, htags, htag⟩ := h.get_tag toJson
    rw [hget] at htag
    cases htag
    rw [tag_value (h.variant v hv) haccepts hvalue]
    apply accepts_discriminant
    rw [htags]
    exact List.mem_map_of_mem hv
  · have hdeclared := hmembers name (mem_keys_of_get hvalue) (mem_keys_of_get hget)
    obtain ⟨schema', hschema⟩ := exists_get hdeclared
    obtain ⟨map, rfl⟩ := (h.variant v hv).objects name schema' (mem_of_get hschema)
    have hmap : map ∈ occurrences variants name :=
      List.mem_filterMap.mpr ⟨v, hv, by rw [hschema]; rfl⟩
    have hvariant := acceptsProperties_of_accepts haccepts name _ (mem_of_get hschema) value hvalue
    obtain ⟨prop, first, rfl, hfirst, hlike⟩ := h.schemas toJson hname hget
    have hin : first ∈ occurrences variants name := List.mem_of_mem_head? hfirst
    exact (accepts_congr (hlike.trans (hsame name hname first hin map hmap)) value).mpr hvariant

include h in
theorem TaggedUnion.acceptance
    (hsame : ∀ name, name ≠ tag → ∀ a ∈ occurrences variants name,
      ∀ b ∈ occurrences variants name, SameButDescription a b) (members : JsonObject)
    (hunion : acceptsUnion schema variants (.obj members))
    (hmembers : ∀ v ∈ variants, accepts (.obj v.2) (.obj members) = true →
      MembersDeclared (flattenTopLevelCombinator toJson schema) v.2 members) :
    accepts (.obj (flattenTopLevelCombinator toJson schema)) (.obj members) = true := by
  obtain ⟨hroot, hone⟩ := hunion
  obtain ⟨v, hv, haccepts⟩ := List.countP_pos_iff.mp (by omega :
    0 < variants.countP fun v => accepts (.obj v.2) (.obj members))
  have hprops := h.accepts_properties toJson hsame hv haccepts (hmembers v hv haccepts)
  have hscan := h.scanned toJson
  rw [accepts_obj_iff]
  intro k w hw
  rw [h.flatten_eq toJson] at hprops hw
  rcases mem_flattenVariants toJson hw with ⟨rfl, rfl⟩ | ⟨rfl, rfl⟩ | ⟨rfl, rfl⟩ | hin
  · exact ⟨fun _ => rfl, nofun⟩
  · refine ⟨fun hne => absurd rfl hne, fun _ props he => ?_⟩
    cases he
    rwa [propertiesOf_flattenVariants] at hprops
  · refine ⟨fun _ => ?_, nofun⟩
    have htag := mem_of_accepts_required haccepts (h.variant v hv).requiresTag
    rw [flatProperties, hscan.tagKey, if_neg h.nonempty]
    simpa [acceptsPlain, acceptsRequired, Json.asStr] using htag
  · exact (accepts_obj_iff schema _).mp hroot k w ((mem_remove_iff schema _ _).mp hin).1

/-- The flattening of a tagged union lists its labels, requires the tag, keeps
every property with its first schema and description, and accepts what the
union accepts of declared members. -/
theorem tagged_union_is_kept (tag : String) (schema : JsonObject)
    (variants : List (String × JsonObject)) (h : TaggedUnion tag schema variants) :
    KeepsUnion tag schema variants (flattenTopLevelCombinator toJson schema) := by
  obtain ⟨st, -, -, hrequired⟩ := h.exists_scan toJson
  constructor
  · obtain ⟨st, htags, htag⟩ := h.get_tag toJson
    exact ⟨_, htag, (get_discriminant_enum toJson st).trans (by rw [htags])⟩
  · exact hrequired
  · exact fun name hname => h.mem_keys_iff toJson hname
  · exact fun name flatSchema hname hget => h.schemas toJson hname hget
  · exact fun name prop hname hprop hdeclared => h.descriptions toJson hname hprop hdeclared
  · exact h.acceptance toJson

end Keeps

/-! ### A member another variant declares -/

/-- `a` requires `p` without declaring it. -/
def requiringVariant : JsonObject :=
  [("properties", .obj [("kind", .obj [("const", .str "a")])]),
    ("required", .arr [.str "kind", .str "p"])]

def declaringVariant : JsonObject :=
  [("properties", .obj [("kind", .obj [("const", .str "b")]), ("p", .obj [("type", .str "string")])]),
    ("required", .arr [.str "kind"])]

def exampleVariants : List (String × JsonObject) :=
  [("a", requiringVariant), ("b", declaringVariant)]

def exampleUnion : JsonObject :=
  [("oneOf", .arr [.obj requiringVariant, .obj declaringVariant])]

theorem taggedUnion_exampleUnion : TaggedUnion "kind" exampleUnion exampleVariants where
  oneOf := rfl
  nonempty := nofun
  distinct := by decide
  variant := by
    intro v hv
    have hcases : v = ("a", requiringVariant) ∨ v = ("b", declaringVariant) := by
      simpa [exampleVariants] using hv
    have hprops : ∀ name schema, (name, schema) ∈ propertiesOf (.obj v.2) →
        (name = "kind" ∧ schema = .obj [("const", .str v.1)]) ∨
          (name = "p" ∧ schema = .obj [("type", .str "string")]) := by
      intro name schema hin
      rcases hcases with rfl | rfl
      · cases List.mem_singleton.mp hin
        exact Or.inl ⟨rfl, rfl⟩
      · rcases List.mem_cons.mp hin with he | hin
        · cases he
          exact Or.inl ⟨rfl, rfl⟩
        · cases List.mem_singleton.mp hin
          exact Or.inr ⟨rfl, rfl⟩
    constructor
    · rcases hcases with rfl | rfl <;> decide
    · intro name schema hin
      rcases hprops name schema hin with ⟨-, rfl⟩ | ⟨-, rfl⟩
      · exact ⟨_, rfl⟩
      · exact ⟨_, rfl⟩
    · rcases hcases with rfl | rfl
      · exact ⟨_, rfl, rfl⟩
      · exact ⟨_, rfl, rfl⟩
    · intro name schema hin hname
      rcases hprops name schema hin with ⟨rfl, -⟩ | ⟨-, rfl⟩
      · exact absurd rfl hname
      · rfl
    · rcases hcases with rfl | rfl <;> decide
  bare := rfl

theorem tagged_union_exampleUnion :
    KeepsUnion "kind" exampleUnion exampleVariants
      (flattenTopLevelCombinator (fun _ => "") exampleUnion) :=
  tagged_union_is_kept (fun _ => "") "kind" exampleUnion exampleVariants taggedUnion_exampleUnion

/-- An object of the first variant with a member that only the second declares
is refused, and the requirement of the first is not told. -/
theorem union_member_refused :
    TaggedUnion "kind" exampleUnion exampleVariants ∧
      (∀ name, name ≠ "kind" → ∀ a ∈ occurrences exampleVariants name,
        ∀ b ∈ occurrences exampleVariants name, SameButDescription a b) ∧
      acceptsUnion exampleUnion exampleVariants (.obj [("kind", .str "a"), ("p", .bool true)]) ∧
      accepts (.obj (flattenTopLevelCombinator (fun _ => "") exampleUnion))
        (.obj [("kind", .str "a"), ("p", .bool true)]) = false ∧
      ∃ prop, get (propertiesOf (.obj (flattenTopLevelCombinator (fun _ => "") exampleUnion))) "p" =
          some (.obj prop) ∧ ¬ DescribedBy "kind" exampleVariants "p" prop := by
  have honly : ∀ name, name ≠ "kind" → ∀ a ∈ occurrences exampleVariants name,
      a = [("type", .str "string")] := by
    intro name hname a ha
    obtain ⟨v, hv, hget⟩ := List.mem_filterMap.mp ha
    obtain ⟨schema, hschema, hmap⟩ := Option.bind_eq_some_iff.mp hget
    have hin := mem_of_get hschema
    rcases List.mem_cons.mp hv with rfl | hv
    · cases List.mem_singleton.mp hin
      exact absurd rfl hname
    · cases List.mem_singleton.mp hv
      rcases List.mem_cons.mp hin with he | hin
      · cases he
        exact absurd rfl hname
      · cases List.mem_singleton.mp hin
        cases hmap
        rfl
  refine ⟨taggedUnion_exampleUnion, ?_, ?_, ?_, ?_⟩
  · intro name hname a ha b hb
    rw [honly name hname a ha, honly name hname b hb]
    rfl
  · exact ⟨rfl, rfl⟩
  · rfl
  · refine ⟨_, rfl, fun hdescribed => ?_⟩
    have hget := hdescribed.2 (by decide)
    cases hget

end McpFramework.Sanitize
