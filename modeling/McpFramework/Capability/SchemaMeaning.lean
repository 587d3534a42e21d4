import McpFramework.Capability.Acceptance
import McpFramework.Capability.DataKeywords
import McpFramework.Capability.MetaStripping
import McpFramework.Core.Dialect

/-!
# Capability — SchemaMeaning

The passes over a schema against what it means. Stripping changes annotations only;
inlining puts what a definition says where a reference asks for it. A reference that
carries keywords of its own is another matter: they are merged into the definition,
which may then accept more or less than the two together.
-/

namespace McpFramework.Sanitize

open Lib BTreeMap Json

/-! ## The schemas whose references can be followed -/

/-- Keywords that ask for nothing, and may stand beside a reference. -/
def REMARKS : List String :=
  ["$comment", "$schema", "default", "deprecated", "description", "examples", "readOnly",
    "title", "writeOnly"]

/-- A vocabulary that finds its schemas under the keywords of the framework. -/
structure Vocabulary (D : Dialect) : Prop where
  applicators : D.applicators = SUBSCHEMA_KEYWORDS
  containers : D.containers = NAMED_SUBSCHEMA_CONTAINERS
  annotations : D.annotations = "$defs" :: REMARKS
  /-- An object has the type `object`. -/
  typed : ∀ (fields : BTreeMap String Meaning) members, BTreeMap.get fields "type" = none →
    (D.node (insert fields "type" (.data (.str "object"))) (.obj members) ↔
      D.node fields (.obj members))
  /-- To declare no property is to say nothing of any. -/
  undeclared : ∀ fields : BTreeMap String Meaning, BTreeMap.get fields "properties" = none →
    D.node (insert fields "properties" (.named [])) = D.node fields

def isSchema : Json → Bool
  | .obj _ => true
  | .bool _ => true
  | _ => false

/-- The siblings of a reference are remarks. -/
def OnlyRemarks (defs map : JsonObject) : Prop :=
  ∀ k v, (k, v) ∈ map → (k = "$ref" ∧ ∃ s, v = .str s) ∨ (k ∈ REMARKS ∧ NoReference defs v)

/-- A reference is to a definition whose rank lies below `level`, beside nothing but
remarks; the values of keywords that hold no schemas hold no references, and nothing
that could be taken for a schema. -/
inductive Followable (defs : JsonObject) (rank : String → Nat) (level : Nat) : Json → Prop where
  | leaf {v : Json} : v.asArray = none → v.asObject = none → Followable defs rank level v
  | items {items : List Json} : (∀ v ∈ items, Followable defs rank level v) →
      Followable defs rank level (.arr items)
  | reference {map : JsonObject} {name : String} {definition : Json} :
      refTarget defs map = some (name, definition) → rank name < level → OnlyRemarks defs map →
      Followable defs rank level (.obj map)
  | node {map : JsonObject} : refTarget defs map = none →
      (∀ k v, (k, v) ∈ map → k ∈ SUBSCHEMA_KEYWORDS → Followable defs rank level v) →
      (∀ k members, (k, .obj members) ∈ map → k ∈ NAMED_SUBSCHEMA_CONTAINERS →
        refTarget defs members = none) →
      (∀ k members, (k, .obj members) ∈ map → k ∈ NAMED_SUBSCHEMA_CONTAINERS →
        ∀ n s, (n, s) ∈ members → Followable defs rank level s) →
      (∀ k v, (k, v) ∈ map → k ∉ SUBSCHEMA_KEYWORDS →
        (k ∈ NAMED_SUBSCHEMA_CONTAINERS → v.asObject = none) →
        NoReference defs v ∧ (k ∈ NAMED_SUBSCHEMA_CONTAINERS ∨ k ∈ DATA_KEYWORDS ∨
          k ∈ REMARKS ∨ Inert v)) →
      Followable defs rank level (.obj map)

/-- An input schema without a combinator at its root, all of whose references can be
followed. -/
structure FollowableSchema (schema : JsonObject) (rank : String → Nat) : Prop where
  root : Followable (defsOf schema) rank MAX_REF_DEPTH (.obj schema)
  unreferenced : refTarget (defsOf schema) schema = none
  definitions : ∀ name definition, get (defsOf schema) name = some definition →
    isSchema definition = true ∧ Followable (defsOf schema) rank (rank name) definition
  plain : rootCombinator schema = none

theorem remark_is_plain {k : String} (h : k ∈ REMARKS) :
    k ∉ SUBSCHEMA_KEYWORDS ∧ k ∉ NAMED_SUBSCHEMA_CONTAINERS ∧ k ≠ "properties" ∧
      k ≠ "required" := by
  revert k
  decide

theorem refTarget_refName (defs map : JsonObject) :
    refTarget defs map =
      (refName map).bind fun name => (get defs name).map fun definition => (name, definition) := by
  unfold refTarget refName
  cases get map "$ref" with
  | none => rfl
  | some v => cases v <;> rfl

/-- A reference that finds nothing names no definition. -/
theorem notMem_keys_of_refTarget {defs map : JsonObject} (h : refTarget defs map = none)
    {name : String} (hname : refName map = some name) : name ∉ keys defs := by
  rw [refTarget_refName, hname, Option.bind_some, Option.map_eq_none_iff] at h
  exact (get_eq_none_iff defs name).mp h

theorem refName_of_refTarget {defs map : JsonObject} {name : String} {definition : Json}
    (h : refTarget defs map = some (name, definition)) :
    refName map = some name ∧ get defs name = some definition := by
  rw [refTarget_refName] at h
  obtain ⟨name', hname, hfound⟩ := Option.bind_eq_some_iff.mp h
  obtain ⟨definition', hdef, heq⟩ := Option.map_eq_some_iff.mp hfound
  cases heq
  exact ⟨hname, hdef⟩

theorem asObject_of_no_map {k : String} {v : Json}
    (h : ¬ (k ∈ NAMED_SUBSCHEMA_CONTAINERS ∧ ∃ members, v = .obj members))
    (hk : k ∈ NAMED_SUBSCHEMA_CONTAINERS) : v.asObject = none := by
  cases v with
  | obj members => exact absurd ⟨hk, members, rfl⟩ h
  | _ => rfl

section Meaning

variable {D : Dialect} {defs : JsonObject} {rank : String → Nat} {level : Nat}

theorem Followable.references (hD : Vocabulary D) {v : Json} (h : Followable defs rank level v) :
    D.References (fun name => name ∈ keys defs → rank name < level) v := by
  induction v using Json.walkTwo with
  | leaf v harr hobj => exact .leaf harr hobj
  | arr items ih =>
    cases h with
    | leaf harr => cases harr
    | items h => exact .items fun v hv => ih v hv (h v hv)
  | obj map ih ihMembers =>
    cases h with
    | leaf _ hobj => cases hobj
    | reference htarget hlt hremarks =>
      have hplain : ∀ k v, (k, v) ∈ map →
          k ∉ SUBSCHEMA_KEYWORDS ∧ k ∉ NAMED_SUBSCHEMA_CONTAINERS := fun k v hv => by
        rcases hremarks k v hv with ⟨rfl, -⟩ | ⟨hk, -⟩
        · decide
        · obtain ⟨happ, hcontainer, -⟩ := remark_is_plain hk
          exact ⟨happ, hcontainer⟩
      refine .node (fun name hname _ => ?_) (fun k v hv hk => ?_) (fun k members hv hk => ?_)
      · rw [(refName_of_refTarget htarget).1] at hname
        cases hname
        exact hlt
      · rw [hD.applicators] at hk
        exact absurd hk (hplain k v hv).1
      · rw [hD.containers] at hk
        exact absurd hk (hplain k _ hv).2
    | node htarget happ _ hcontainer =>
      refine .node (fun name hname hin => ?_) (fun k v hv hk => ?_)
        (fun k members hv hk n s hs => ?_)
      · exact absurd hin (notMem_keys_of_refTarget htarget hname)
      · rw [hD.applicators] at hk
        exact ih k v hv (happ k v hv hk)
      · rw [hD.containers] at hk
        exact ihMembers k members hv n s hs (hcontainer k members hv hk n s hs)

/-! ## Stripping -/

theorem mapValues_mapValues {U V W : Type*} (f : String → U → V) (g : String → V → W)
    (map : BTreeMap String U) :
    mapValues g (mapValues f map) = mapValues (fun k v => g k (f k v)) map := by
  simp [mapValues]

/-- A value that could not be taken for a schema is left as it is. -/
theorem sanitizeKeyword_inert {k : String} {v : Json}
    (hobj : k ∈ NAMED_SUBSCHEMA_CONTAINERS → v.asObject = none) (h : Inert v) :
    sanitizeKeyword k v = v := by
  by_cases hnamed : k ∈ NAMED_SUBSCHEMA_CONTAINERS
  · exact sanitizeKeyword_named_other hnamed (hobj hnamed)
  · by_cases hdata : k ∈ DATA_KEYWORDS
    · exact sanitizeKeyword_data hdata v
    · rw [sanitizeKeyword_of_plain hdata hnamed]
      exact (sanitizeValueRecursive_eq_self_iff v).mpr h

/-- The meta fields ask for nothing. -/
theorem essential_nodeFields (hD : Vocabulary D) (map : JsonObject) :
    D.essential (nodeFields map) = D.essential map := by
  have hmem : ∀ k ∈ ["$schema", "title", "description"], k ∈ D.annotations := by
    rw [hD.annotations]
    decide
  have hfold : ∀ map : JsonObject,
      D.essential (foldTitleIntoDescription map) = D.essential map := fun map => by
    have htitle := D.essential_remove map (hmem "title" (by decide))
    unfold foldTitleIntoDescription
    split
    · rfl
    · dsimp only
      split_ifs
      · exact htitle
      · rw [D.essential_insert _ _ (hmem "description" (by decide))]
        exact htitle
      · exact htitle
    · exact htitle
  rw [nodeFields, hfold, D.essential_remove map (hmem "$schema" (by decide))]

theorem refName_sanitizeSchemaNode (map : JsonObject) :
    refName (sanitizeSchemaNode map) = refName map := by
  unfold refName
  rw [get_clean map (by decide)]
  cases get map "$ref" with
  | none => rfl
  | some v =>
    rw [Option.map_some, sanitizeKeyword_of_plain (by decide) (by decide)]
    cases v with
    | bool b => cases b <;> rfl
    | _ => rfl

/-- **Stripping keeps the meaning** of a schema, whatever its definitions accept. -/
theorem meaning_sanitize (hD : Vocabulary D) (reading : Reading) {v : Json}
    (h : Followable defs rank level v) :
    D.meaning reading (sanitizeValueRecursive v) = D.meaning reading v := by
  induction v using Json.walkTwo with
  | leaf v harr hobj =>
    cases v with
    | bool b =>
      cases b with
      | true =>
        rw [sanitizeValueRecursive, D.meaning_obj, Dialect.meaning]
        refine congrArg Meaning.schema (funext fun x => ?_)
        exact propext ⟨fun _ => rfl, fun _ => D.node_nil x⟩
      | false => rfl
    | arr items => cases harr
    | obj map => cases hobj
    | _ => rfl
  | arr items ih =>
    cases h with
    | leaf harr => cases harr
    | items h =>
      rw [sanitizeValueRecursive_arr, D.meaning_arr, D.meaning_arr, List.map_map]
      exact congrArg Meaning.list (List.map_congr_left fun v hv => ih v hv (h v hv))
  | obj map ih ihMembers =>
    rw [sanitizeValueRecursive_obj, D.meaning_obj, D.meaning_obj]
    refine congrArg Meaning.schema
      (Dialect.nodeAccepts_congr (refName_sanitizeSchemaNode map) ?_)
    -- Keyword by keyword, of those that ask for something.
    have hkeyword : ∀ k v, (k, v) ∈ D.essential map →
        D.keywordMeaning reading k (sanitizeKeyword k v) = D.keywordMeaning reading k v := by
      intro k v hv
      obtain ⟨hin, hasks⟩ := Dialect.mem_essential_iff.mp hv
      have hremark : k ∉ REMARKS := fun hk => hasks (hD.annotations ▸ List.mem_cons_of_mem _ hk)
      cases h with
      | leaf _ hobj => cases hobj
      | reference htarget _ hremarks =>
        rcases hremarks k v hin with ⟨rfl, refStr, rfl⟩ | ⟨hk, -⟩
        · rw [sanitizeKeyword_of_plain (by decide) (by decide), sanitizeValueRecursive_str]
        · exact absurd hk hremark
      | node htarget happ _ hmembers hother =>
        by_cases hk : k ∈ SUBSCHEMA_KEYWORDS
        · obtain ⟨hdata, hnamed⟩ := subschema_is_plain hk
          rw [sanitizeKeyword_of_plain hdata hnamed,
            Dialect.keywordMeaning_applicator (hD.applicators ▸ hk),
            Dialect.keywordMeaning_applicator (hD.applicators ▸ hk), ih k v hin (happ k v hin hk)]
        · by_cases hmap : k ∈ NAMED_SUBSCHEMA_CONTAINERS ∧ ∃ members, v = .obj members
          · obtain ⟨hnamed, members, rfl⟩ := hmap
            have happ' : k ∉ D.applicators := hD.applicators ▸ hk
            have hnamed' : k ∈ D.containers := hD.containers ▸ hnamed
            rw [sanitizeKeyword_named hnamed, Dialect.keywordMeaning_container happ' hnamed',
              Dialect.keywordMeaning_container happ' hnamed', mapValues_mapValues]
            refine congrArg Meaning.named (mapValues_congr fun n s hs => ?_)
            exact ihMembers k members hin n s hs (hmembers k members hin hnamed n s hs)
          · have hobj := asObject_of_no_map hmap
            have hsame : sanitizeKeyword k v = v := by
              rcases (hother k v hin hk hobj).2 with hnamed | hdata | hrem | hinert
              · exact sanitizeKeyword_named_other hnamed (hobj hnamed)
              · exact sanitizeKeyword_data hdata v
              · exact absurd hrem hremark
              · exact sanitizeKeyword_inert hobj hinert
            rw [hsame]
    calc D.essential (mapValues (D.keywordMeaning reading) (sanitizeSchemaNode map))
        = mapValues (fun k v => D.keywordMeaning reading k (sanitizeKeyword k v))
            (D.essential (nodeFields map)) := by
          rw [sanitizeSchemaNode, mapValues_mapValues, Dialect.essential_mapValues, nodeFields]
      _ = mapValues (fun k v => D.keywordMeaning reading k (sanitizeKeyword k v))
            (D.essential map) := by rw [essential_nodeFields hD]
      _ = mapValues (D.keywordMeaning reading) (D.essential map) := mapValues_congr hkeyword
      _ = D.essential (mapValues (D.keywordMeaning reading) map) :=
          (Dialect.essential_mapValues _ _).symm

theorem refName_named (named : JsonObject) :
    refName (mapValues (fun _ s => sanitizeValueRecursive s) named) = refName named := by
  unfold refName
  rw [get_mapValues]
  cases get named "$ref" with
  | none => rfl
  | some v =>
    cases v with
    | bool b => cases b <;> rfl
    | _ => rfl

theorem noReference_sanitize {v : Json} (h : NoReference defs v) :
    NoReference defs (sanitizeValueRecursive v) := by
  refine everyObject_sanitize (P := fun map => refTarget defs map = none) rfl
    (fun map hmap => ?_) (fun named hnamed => ?_) h
  · rwa [refTarget_refName, refName_sanitizeSchemaNode, ← refTarget_refName]
  · rwa [refTarget_refName, refName_named, ← refTarget_refName]

/-- A map of named schemas comes from a map of the same names. -/
theorem named_of_sanitizeKeyword {k : String} (hk : k ∈ NAMED_SUBSCHEMA_CONTAINERS) {v : Json}
    {named : JsonObject} (h : .obj named = sanitizeKeyword k v) :
    ∃ members, v = .obj members ∧
      named = mapValues (fun _ s => sanitizeValueRecursive s) members := by
  cases v with
  | obj members =>
    rw [sanitizeKeyword_named hk] at h
    exact ⟨members, rfl, Json.obj.inj h⟩
  | _ =>
    rw [sanitizeKeyword_named_other hk rfl] at h
    cases h

theorem noReference_remark {k : String} {v : Json} (hk : k ∈ REMARKS) (hv : NoReference defs v) :
    NoReference (cleanDefs defs) (sanitizeKeyword k v) := by
  refine (noReference_cleanDefs defs _).mpr ?_
  by_cases hdata : k ∈ DATA_KEYWORDS
  · rwa [sanitizeKeyword_data hdata]
  · rw [sanitizeKeyword_of_plain hdata (remark_is_plain hk).2.1]
    exact noReference_sanitize hv

theorem refTarget_sanitizeSchemaNode {map : JsonObject} {name : String} {definition : Json}
    (h : refTarget defs map = some (name, definition)) :
    refTarget (cleanDefs defs) (sanitizeSchemaNode map) =
      some (name, sanitizeValueRecursive definition) := by
  obtain ⟨hname, hdef⟩ := refName_of_refTarget h
  rw [refTarget_refName, refName_sanitizeSchemaNode, hname, Option.bind_some, cleanDefs,
    get_mapValues, hdef]
  rfl

theorem OnlyRemarks.sanitize {map : JsonObject} (h : OnlyRemarks defs map) :
    OnlyRemarks (cleanDefs defs) (sanitizeSchemaNode map) := by
  intro k w hw
  rcases mem_sanitizeSchemaNode hw with ⟨v, hv, -, -, rfl⟩ | ⟨rfl, s, rfl⟩
  · rcases h k v hv with ⟨rfl, refStr, rfl⟩ | ⟨hk, hnone⟩
    · left
      refine ⟨rfl, refStr, ?_⟩
      rw [sanitizeKeyword_of_plain (by decide) (by decide), sanitizeValueRecursive_str]
    · exact .inr ⟨hk, noReference_remark hk hnone⟩
  -- A title that became a description.
  · exact .inr ⟨by decide, .str s⟩

/-- A schema whose references can be followed is one after stripping. -/
theorem Followable.sanitize {v : Json} (h : Followable defs rank level v) :
    Followable (cleanDefs defs) rank level (sanitizeValueRecursive v) := by
  induction v using Json.walkTwo with
  | leaf v harr hobj =>
    cases v with
    | bool b =>
      cases b with
      | true => exact .node (by rfl) nofun nofun nofun nofun
      | false => exact .leaf rfl rfl
    | arr items => cases harr
    | obj map => cases hobj
    | _ => exact .leaf rfl rfl
  | arr items ih =>
    cases h with
    | leaf harr => cases harr
    | items h =>
      rw [sanitizeValueRecursive_arr]
      refine .items fun w hw => ?_
      obtain ⟨v, hv, rfl⟩ := List.mem_map.mp hw
      exact ih v hv (h v hv)
  | obj map ih ihMembers =>
    rw [sanitizeValueRecursive_obj]
    cases h with
    | leaf _ hobj => cases hobj
    | reference htarget hlt hremarks =>
      exact .reference (refTarget_sanitizeSchemaNode htarget) hlt hremarks.sanitize
    | node htarget happ hnames hmembers hother =>
      refine .node ?_ (fun k w hw hk => ?_) (fun k members hw hk => ?_)
        (fun k members hw hk n s hs => ?_) (fun k w hw hk hobj => ?_)
      · rw [refTarget_cleanDefs, refTarget_refName, refName_sanitizeSchemaNode,
          ← refTarget_refName]
        exact htarget
      · rcases mem_sanitizeSchemaNode hw with ⟨v, hv, -, -, rfl⟩ | ⟨rfl, s, rfl⟩
        · obtain ⟨hdata, hnamed⟩ := subschema_is_plain hk
          rw [sanitizeKeyword_of_plain hdata hnamed]
          exact ih k v hv (happ k v hv hk)
        · exact .leaf rfl rfl
      · rcases mem_sanitizeSchemaNode hw with ⟨v, hv, -, -, he⟩ | ⟨-, s, he⟩
        · obtain ⟨named, rfl, rfl⟩ := named_of_sanitizeKeyword hk he
          rw [refTarget_cleanDefs, refTarget_refName, refName_named, ← refTarget_refName]
          exact hnames k named hv hk
        · cases he
      · rcases mem_sanitizeSchemaNode hw with ⟨v, hv, -, -, he⟩ | ⟨-, s, he⟩
        · obtain ⟨named, rfl, rfl⟩ := named_of_sanitizeKeyword hk he
          obtain ⟨subschema, hsub, rfl⟩ := (mem_mapValues_iff _ _ _ _).mp hs
          exact ihMembers k named hv n subschema hsub (hmembers k named hv hk n subschema hsub)
        · cases he
      · rcases mem_sanitizeSchemaNode hw with ⟨v, hv, -, -, rfl⟩ | ⟨rfl, s, rfl⟩
        · have hobj' : k ∈ NAMED_SUBSCHEMA_CONTAINERS → v.asObject = none := fun hnamed => by
            cases v with
            | obj members =>
              rw [sanitizeKeyword_named hnamed] at hobj
              cases hobj hnamed
            | _ => rfl
          obtain ⟨hnone, hkind⟩ := hother k v hv hk hobj'
          have hclean := (noReference_cleanDefs defs v).mpr hnone
          rcases hkind with hnamed | hdata | hrem | hinert
          · rw [sanitizeKeyword_named_other hnamed (hobj' hnamed)]
            exact ⟨hclean, .inl hnamed⟩
          · rw [sanitizeKeyword_data hdata]
            exact ⟨hclean, .inr (.inl hdata)⟩
          · exact ⟨noReference_remark hrem hnone, .inr (.inr (.inl hrem))⟩
          · rw [sanitizeKeyword_inert hobj' hinert]
            exact ⟨hclean, .inr (.inr (.inr hinert))⟩
        · exact ⟨.str s, .inr (.inr (.inl (by decide)))⟩

/-! ## Inlining -/

theorem Followable.mono {v : Json} (h : Followable defs rank level v) {level' : Nat}
    (hle : level ≤ level') : Followable defs rank level' v := by
  induction v using Json.walkTwo with
  | leaf v harr hobj => exact .leaf harr hobj
  | arr items ih =>
    cases h with
    | leaf harr => cases harr
    | items h => exact .items fun v hv => ih v hv (h v hv)
  | obj map ih ihMembers =>
    cases h with
    | leaf _ hobj => cases hobj
    | reference htarget hlt hremarks =>
      exact .reference htarget (Nat.lt_of_lt_of_le hlt hle) hremarks
    | node htarget happ hnames hmembers hother =>
      exact .node htarget (fun k v hv hk => ih k v hv (happ k v hv hk)) hnames
        (fun k members hv hk n s hs =>
          ihMembers k members hv n s hs (hmembers k members hv hk n s hs)) hother

/-- A remark replaces that of the definition. -/
theorem siblingValue_remark {k : String} (hk : k ∈ REMARKS) (old : Option Json) (v : Json) :
    siblingValue k old v = v := by
  obtain ⟨-, -, hprops, hreq⟩ := remark_is_plain hk
  cases old with
  | none => exact siblingValue_none k v
  | some o => exact siblingValue_other hprops hreq (some o) v

theorem essential_mergeSiblings (hD : Vocabulary D) {map : JsonObject} (h : OnlyRemarks defs map)
    (inlined : JsonObject) : D.essential (mergeSiblings inlined map) = D.essential inlined := by
  unfold mergeSiblings
  induction map generalizing inlined with
  | nil => rfl
  | cons e map ih =>
    rw [List.foldl_cons, ih fun k v hv => h k v (List.mem_cons_of_mem _ hv)]
    rcases h e.1 e.2 List.mem_cons_self with ⟨href, -⟩ | ⟨hk, -⟩
    · rw [if_pos href]
    · have hne : e.1 ≠ "$ref" := fun heq => by
        rw [heq] at hk
        exact absurd hk (by decide)
      rw [if_neg hne, D.essential_insert]
      rw [hD.annotations]
      exact List.mem_cons_of_mem _ hk

theorem refTarget_mergeSiblings (defs inlined map : JsonObject) :
    refTarget defs (mergeSiblings inlined map) = refTarget defs inlined := by
  have hget : get (mergeSiblings inlined map) "$ref" = get inlined "$ref" := by
    unfold mergeSiblings
    induction map generalizing inlined with
    | nil => rfl
    | cons e map ih =>
      rw [List.foldl_cons, ih]
      split_ifs with href
      · rfl
      · exact get_insert_of_ne _ _ fun heq => href heq.symm
  unfold refTarget
  rw [hget]

theorem mem_mergeSiblings_remark {map inlined : JsonObject} (h : OnlyRemarks defs map) :
    ∀ k v, (k, v) ∈ mergeSiblings inlined map →
      (k, v) ∈ inlined ∨ (k ∈ REMARKS ∧ NoReference defs v) := by
  refine mergeSiblings_forall (fun k v hv => .inl hv) fun k v hv hk old _ => ?_
  rcases h k v hv with ⟨heq, -⟩ | ⟨hrem, hnone⟩
  · exact absurd heq hk
  · rw [siblingValue_remark hrem]
    exact .inr ⟨hrem, hnone⟩

/-- A definition with other remarks can still be followed. -/
theorem Followable.inline {map : JsonObject} {definition : Json}
    (h : Followable defs rank level definition) (hremarks : OnlyRemarks defs map) :
    Followable defs rank level (inlineReference definition map) := by
  cases definition with
  | obj inlined =>
    have hmem : ∀ k v, (k, v) ∈ mergeSiblings inlined map →
        (k, v) ∈ inlined ∨ (k ∈ REMARKS ∧ NoReference defs v) := mem_mergeSiblings_remark hremarks
    rw [inlineReference]
    cases h with
    | leaf _ hobj => cases hobj
    | reference htarget hlt hsiblings =>
      refine .reference ((refTarget_mergeSiblings defs inlined map).trans htarget) hlt
        fun k v hv => ?_
      rcases hmem k v hv with hin | hrem
      · exact hsiblings k v hin
      · exact .inr hrem
    | node htarget happ hnames hmembers hother =>
      refine .node ((refTarget_mergeSiblings defs inlined map).trans htarget)
        (fun k v hv hk => ?_) (fun k members hv hk => ?_) (fun k members hv hk => ?_)
        (fun k v hv hk hobj => ?_)
      · rcases hmem k v hv with hin | ⟨hrem, -⟩
        · exact happ k v hin hk
        · exact absurd hk (remark_is_plain hrem).1
      · rcases hmem k _ hv with hin | ⟨hrem, -⟩
        · exact hnames k members hin hk
        · exact absurd hk (remark_is_plain hrem).2.1
      · rcases hmem k _ hv with hin | ⟨hrem, -⟩
        · exact hmembers k members hin hk
        · exact absurd hk (remark_is_plain hrem).2.1
      · rcases hmem k v hv with hin | ⟨hrem, hnone⟩
        · exact hother k v hin hk hobj
        · exact ⟨hnone, .inr (.inr (.inl hrem))⟩
  | _ => exact h

/-- A schema means what it accepts. -/
theorem meaning_of_isSchema (D : Dialect) (reading : Reading) {v : Json} (h : isSchema v = true) :
    D.meaning reading v = .schema (D.accepts reading v) := by
  cases v with
  | obj map => rw [Dialect.accepts, D.meaning_obj, Meaning.accepts]
  | bool b => rfl
  | _ => cases h

/-- A definition in the place of a reference to it. -/
theorem meaning_inlineReference (hD : Vocabulary D) (reading : Reading) {map : JsonObject}
    (hremarks : OnlyRemarks defs map) (definition : Json) :
    D.meaning reading (inlineReference definition map) = D.meaning reading definition := by
  cases definition with
  | obj inlined => exact Dialect.meaning_of_essential (essential_mergeSiblings hD hremarks inlined)
  | _ => rfl

/-- A reference accepts what its definition does. -/
theorem meaning_reference (hD : Vocabulary D) {reading : Reading} (hreads : D.Reads defs reading)
    {map : JsonObject} {name : String} {definition : Json}
    (htarget : refTarget defs map = some (name, definition)) (hremarks : OnlyRemarks defs map) :
    D.meaning reading (.obj map) = .schema (D.accepts reading definition) := by
  obtain ⟨hname, hdef⟩ := refName_of_refTarget htarget
  have hread : (refName map).bind reading = some (D.accepts reading definition) := by
    rw [hname, Option.bind_some, hreads name, hdef]
    rfl
  have hrest : ∀ k ∈ keys (remove (mapValues (D.keywordMeaning reading) map) "$ref"),
      k ∈ D.annotations := fun k hk => by
    rw [← mapValues_remove, keys_mapValues] at hk
    obtain ⟨⟨k, v⟩, hv, rfl⟩ := List.mem_map.mp hk
    obtain ⟨hin, hne⟩ := (mem_remove_iff map _ _).mp hv
    rcases hremarks k v hin with ⟨heq, -⟩ | ⟨hrem, -⟩
    · exact absurd heq hne
    · rw [hD.annotations]
      exact List.mem_cons_of_mem _ hrem
  rw [D.meaning_obj, Dialect.nodeAccepts, hread]
  refine congrArg Meaning.schema (funext fun x => propext ⟨And.right, fun hx => ⟨?_, hx⟩⟩)
  exact Dialect.node_of_annotations hrest x

/-- A schema that stands alone has no definitions. -/
def unread : Reading := fun _ => none

theorem nodeAccepts_unread (D : Dialect) (map : JsonObject) (fields : BTreeMap String Meaning) :
    D.nodeAccepts unread map fields = D.node fields := by
  have hnone : (refName map).bind unread = none := by
    cases refName map with
    | none => rfl
    | some name => rfl
  rw [Dialect.nodeAccepts, hnone]

/-- What inlining asks of a value on a chain of definitions. -/
structure Reachable (defs : JsonObject) (rank : String → Nat) (chain : List String)
    (level : Nat) : Prop where
  above : ∀ name ∈ chain, level ≤ rank name
  depth : chain.length + level ≤ MAX_REF_DEPTH

/-- **Inlining keeps the meaning** of a schema. The chain is that of the definitions
being inlined: their ranks lie above the level of what is left to inline. -/
theorem meaning_resolve (hD : Vocabulary D) {reading : Reading} (hreads : D.Reads defs reading)
    (hdefs : ∀ name definition, get defs name = some definition →
      isSchema definition = true ∧ Followable defs rank (rank name) definition)
    (chain : List String) {v : Json} (h : Followable defs rank level v)
    (hchain : Reachable defs rank chain level) :
    D.meaning unread (resolveRefsInner defs chain v) = D.meaning reading v := by
  -- Of an object also the members, should it be a map of schemas.
  suffices hboth : (∀ level, Followable defs rank level v → Reachable defs rank chain level →
        D.meaning unread (resolveRefsInner defs chain v) = D.meaning reading v) ∧
      ∀ members, v = .obj members → refTarget defs members = none → ∀ level,
        (∀ n s, (n, s) ∈ members → Followable defs rank level s) →
        Reachable defs rank chain level → ∀ n s, (n, s) ∈ members →
          D.meaning unread (resolveRefsInner defs chain s) = D.meaning reading s from
    hboth.1 level h hchain
  clear h hchain
  induction chain, v using resolve_induction with
  | leaf chain v harr hobj =>
    refine ⟨fun level _ _ => ?_, fun members he => ?_⟩
    · rw [resolveRefsInner_leaf harr hobj]
      cases v with
      | arr items => cases harr
      | obj map => cases hobj
      | _ => rfl
    · rw [he] at hobj
      cases hobj
  | arr chain items ih =>
    refine ⟨fun level h hchain => ?_, nofun⟩
    cases h with
    | leaf harr => cases harr
    | items h =>
      rw [resolveRefsInner_arr, D.meaning_arr, D.meaning_arr, List.map_map]
      exact congrArg Meaning.list
        (List.map_congr_left fun v hv => (ih v hv).1 level (h v hv) hchain)
  | plain chain map htarget ih =>
    refine ⟨fun level h hchain => ?_, fun members he _ level h hchain n s hs => ?_⟩
    · cases h with
      | leaf _ hobj => cases hobj
      | reference htarget' => cases htarget.symm.trans htarget'
      | node _ happ hnames hmembers hother =>
        have hkeyword : ∀ k v, (k, v) ∈ map →
            D.keywordMeaning unread k (resolveRefsInner defs chain v) =
              D.keywordMeaning reading k v := by
          intro k v hv
          by_cases hk : k ∈ SUBSCHEMA_KEYWORDS
          · rw [Dialect.keywordMeaning_applicator (hD.applicators ▸ hk),
              Dialect.keywordMeaning_applicator (hD.applicators ▸ hk)]
            exact (ih k v hv).1 level (happ k v hv hk) hchain
          · have happ' : k ∉ D.applicators := hD.applicators ▸ hk
            by_cases hmap : k ∈ NAMED_SUBSCHEMA_CONTAINERS ∧ ∃ members, v = .obj members
            · obtain ⟨hnamed, members, rfl⟩ := hmap
              have hnamed' : k ∈ D.containers := hD.containers ▸ hnamed
              have hnone := hnames k members hv hnamed
              rw [resolveRefsInner_plain hnone, Dialect.keywordMeaning_container happ' hnamed',
                Dialect.keywordMeaning_container happ' hnamed', mapValues_mapValues]
              refine congrArg Meaning.named (mapValues_congr fun n s hs => ?_)
              exact (ih k _ hv).2 members rfl hnone level (hmembers k members hv hnamed) hchain
                n s hs
            · have hobj := asObject_of_no_map hmap
              have hdata : k ∈ D.containers → v.asObject = none := hD.containers ▸ hobj
              rw [resolve_of_noReference chain (hother k v hv hk hobj).1,
                Dialect.keywordMeaning_data happ' hdata, Dialect.keywordMeaning_data happ' hdata]
        have hread : (refName map).bind reading = none := by
          cases hname : refName map with
          | none => rfl
          | some name =>
            rw [Option.bind_some, hreads name,
              (get_eq_none_iff defs name).mpr (notMem_keys_of_refTarget htarget hname)]
            rfl
        rw [resolveRefsInner_plain htarget, D.meaning_obj, D.meaning_obj, mapValues_mapValues,
          mapValues_congr hkeyword]
        refine congrArg Meaning.schema ?_
        rw [nodeAccepts_unread, Dialect.nodeAccepts, hread]
    · cases he
      exact (ih n s hs).1 level (h n s hs) hchain
  | truncated chain map name definition htarget hcut ih =>
    refine ⟨fun level h hchain => ?_, fun members he hnone => ?_⟩
    · cases h with
      | leaf _ hobj => cases hobj
      | reference htarget' hlt =>
        cases htarget.symm.trans htarget'
        have hdepth := hchain.depth
        rcases hcut with hin | hfull
        · have := hchain.above name hin
          omega
        · omega
      | node htarget' => cases htarget.symm.trans htarget'
    · cases he
      cases htarget.symm.trans hnone
  | inlined chain map name definition htarget hnew hdepth ih =>
    refine ⟨fun level h hchain => ?_, fun members he hnone => ?_⟩
    · cases h with
      | leaf _ hobj => cases hobj
      | @reference _ name' definition' htarget' hlt hremarks =>
        cases htarget.symm.trans htarget'
        obtain ⟨hschema, hdef⟩ := hdefs name definition (refName_of_refTarget htarget).2
        have hchain' : Reachable defs rank (chain ++ [name]) (rank name) := by
          refine ⟨fun other hother => ?_, ?_⟩
          · rcases List.mem_append.mp hother with hin | hin
            · exact le_of_lt (Nat.lt_of_lt_of_le hlt (hchain.above other hin))
            · rw [List.mem_singleton.mp hin]
          · have := hchain.depth
            rw [List.length_append, List.length_singleton]
            omega
        rw [resolveRefsInner_inlined htarget hnew hdepth,
          ih.1 (rank name) (hdef.inline hremarks) hchain',
          meaning_inlineReference hD reading hremarks,
          meaning_reference hD hreads htarget hremarks, meaning_of_isSchema D reading hschema]
      | node htarget' => cases htarget.symm.trans htarget'
    · cases he
      cases htarget.symm.trans hnone

/-! ## The whole rewriting -/

theorem isSchema_sanitize {v : Json} (h : isSchema v = true) :
    isSchema (sanitizeValueRecursive v) = true := by
  cases v with
  | obj map => rw [sanitizeValueRecursive_obj, isSchema]
  | bool b => cases b <;> rfl
  | _ => cases h

/-- Stripped definitions accept what they did. -/
theorem reads_cleanDefs (hD : Vocabulary D) {reading : Reading} (hreads : D.Reads defs reading)
    (hdefs : ∀ name definition, get defs name = some definition →
      Followable defs rank (rank name) definition) : D.Reads (cleanDefs defs) reading := by
  intro name
  rw [hreads name, cleanDefs, get_mapValues, Option.map_map]
  cases hdef : get defs name with
  | none => rfl
  | some definition =>
    have hsame := meaning_sanitize hD reading (hdefs name definition hdef)
    exact congrArg some (congrArg Meaning.accepts hsame).symm

/-- Nothing refers to a definition where there is none. -/
theorem resolve_without_defs (v : Json) : resolveRefsInner (cleanDefs []) [] v = v := by
  refine resolve_of_noReference [] (EveryObject.of_forall (fun map => ?_) v)
  rw [refTarget_refName]
  cases refName map with
  | none => rfl
  | some name => rfl

/-- The definitions apart, the second pass resolves the values at the root. -/
theorem essential_inlineDefs (hdefs : "$defs" ∈ D.annotations) (schema : JsonObject) :
    D.essential (inlineDefs (stripMetaFields schema)) =
      D.essential (mapValues (fun _ v => resolveRefsInner (cleanDefs (defsOf schema)) [] v)
        (sanitizeSchemaNode schema)) := by
  have hid : mapValues (fun _ v => resolveRefsInner (cleanDefs []) [] v)
      (sanitizeSchemaNode schema) = sanitizeSchemaNode schema := by
    refine (mapValues_eq_self_iff _ _).mpr fun k v _ => resolve_without_defs v
  have hget := (get_clean_named schema (show "$defs" ∈ NAMED_SUBSCHEMA_CONTAINERS by decide)).1
  unfold inlineDefs defsOf
  rw [stripMetaFields, hget]
  cases hdef : get schema "$defs" with
  | none => simp only [Option.map_none, Option.bind_none, Option.getD_none, hid]
  | some v =>
    cases v with
    | obj defs =>
      simp only [Option.map_some, Option.bind_some, Json.asObject, Option.getD_some,
        sanitizeKeyword_named (show "$defs" ∈ NAMED_SUBSCHEMA_CONTAINERS by decide)]
      rw [Dialect.essential_mapValues, Dialect.essential_remove _ hdefs,
        ← Dialect.essential_mapValues]
      rfl
    | _ =>
      rw [Option.map_some, sanitizeKeyword_of_no_map (by decide) rfl]
      simp only [Option.bind_some, Json.asObject, Option.getD_none, hid]
      rw [Dialect.essential_insert _ _ hdefs, Dialect.essential_remove _ hdefs]

variable {schema : JsonObject} {reading : Reading}

theorem meaning_inlineDefs (hD : Vocabulary D) (h : FollowableSchema schema rank)
    (hreads : D.Reads (defsOf schema) reading) :
    D.meaning unread (.obj (inlineDefs (stripMetaFields schema))) =
      D.meaning reading (.obj schema) := by
  have hdefs : "$defs" ∈ D.annotations := hD.annotations ▸ List.mem_cons_self
  have hstrip : D.meaning reading (.obj (sanitizeSchemaNode schema)) =
      D.meaning reading (.obj schema) := by
    rw [← sanitizeValueRecursive_obj]
    exact meaning_sanitize hD reading h.root
  have hreads' := reads_cleanDefs hD hreads fun name d hd => (h.definitions name d hd).2
  have hdefinitions : ∀ name d, get (cleanDefs (defsOf schema)) name = some d →
      isSchema d = true ∧ Followable (cleanDefs (defsOf schema)) rank (rank name) d := by
    intro name d hd
    rw [cleanDefs, get_mapValues] at hd
    obtain ⟨definition, hdef, rfl⟩ := Option.map_eq_some_iff.mp hd
    obtain ⟨hschema, hfollow⟩ := h.definitions name definition hdef
    exact ⟨isSchema_sanitize hschema, hfollow.sanitize⟩
  have htarget : refTarget (cleanDefs (defsOf schema)) (sanitizeSchemaNode schema) = none := by
    rw [refTarget_cleanDefs, refTarget_refName, refName_sanitizeSchemaNode, ← refTarget_refName]
    exact h.unreferenced
  have hresolved : D.meaning unread (.obj (mapValues
      (fun _ v => resolveRefsInner (cleanDefs (defsOf schema)) [] v)
        (sanitizeSchemaNode schema))) = D.meaning reading (.obj schema) := by
    have hroot := h.root.sanitize
    rw [sanitizeValueRecursive_obj] at hroot
    have hstart : Reachable (cleanDefs (defsOf schema)) rank [] MAX_REF_DEPTH :=
      ⟨fun name hname => absurd hname List.not_mem_nil, Nat.le_of_eq (Nat.zero_add _)⟩
    rw [← resolveRefsInner_plain htarget,
      meaning_resolve hD hreads' hdefinitions [] hroot hstart]
    exact hstrip
  rw [← hresolved]
  exact Dialect.meaning_of_essential (essential_inlineDefs hdefs schema)

theorem accepts_unread (D : Dialect) (map : JsonObject) :
    D.accepts unread (.obj map) = D.node (mapValues (D.keywordMeaning unread) map) := by
  rw [Dialect.accepts, D.meaning_obj, nodeAccepts_unread, Meaning.accepts]

/-- The type that is patched in refuses no object. -/
theorem accepts_patched (hD : Vocabulary D) (toJson : Json → String) (schema : JsonObject)
    (members : JsonObject) :
    D.accepts unread (.obj (sanitizeInputSchema toJson schema).1) (.obj members) ↔
      D.accepts unread (.obj (rewriteSchema toJson schema)) (.obj members) := by
  have happ : ∀ k ∈ ["type", "properties"], k ∉ D.applicators := hD.applicators ▸ by decide
  have htype : "type" ∉ D.containers := hD.containers ▸ by decide
  have hprops : "properties" ∈ D.containers := hD.containers ▸ by decide
  have hget : ∀ (map : JsonObject) k, get map k = none →
      get (mapValues (D.keywordMeaning unread) map) k = none := fun map k h => by
    rw [get_mapValues, h, Option.map_none]
  unfold sanitizeInputSchema
  dsimp only
  generalize rewriteSchema toJson schema = map
  split_ifs with hhas hdeclared
  · exact Iff.rfl
  · have hnone := Option.not_isSome_iff_eq_none.mp hhas
    rw [accepts_unread, accepts_unread, mapValues_insert,
      Dialect.keywordMeaning_data (happ "type" (by decide)) fun h => absurd h htype]
    exact hD.typed _ members (hget map _ hnone)
  · have hnone := Option.not_isSome_iff_eq_none.mp hhas
    have hundeclared := Option.not_isSome_iff_eq_none.mp hdeclared
    rw [accepts_unread, accepts_unread, mapValues_insert, mapValues_insert,
      Dialect.keywordMeaning_data (happ "type" (by decide)) fun h => absurd h htype,
      Dialect.keywordMeaning_container (happ "properties" (by decide)) hprops, mapValues_nil,
      hD.undeclared]
    · exact hD.typed _ members (hget map _ hnone)
    · rw [← Dialect.keywordMeaning_data (happ "type" (by decide)) (v := .str "object")
        fun h => absurd h htype, ← mapValues_insert]
      exact hget _ _ hundeclared

/-- **Sanitizing keeps the meaning of a schema.** In every vocabulary that finds its
schemas under the keywords of the framework, the definitions of a schema whose
references can be followed have one reading, and with it the schema accepts exactly
what it accepts when it has been rewritten, with no definitions; for the objects that
arguments are, the type patched into an input schema changes nothing. -/
theorem sanitizing_keeps_meaning (hD : Vocabulary D) (toJson : Json → String)
    (h : FollowableSchema schema rank) :
    (∃! reading, D.Reads (defsOf schema) reading) ∧
      ∀ reading, D.Reads (defsOf schema) reading →
        D.accepts unread (.obj (rewriteSchema toJson schema)) =
            D.accepts reading (.obj schema) ∧
          ∀ members, D.accepts unread (.obj (sanitizeInputSchema toJson schema).1) (.obj members) ↔
            D.accepts reading (.obj schema) (.obj members) := by
  have hranked : D.Ranked (defsOf schema) rank := fun name d hd =>
    (h.definitions name d hd).2.references hD
  refine ⟨Dialect.exists_unique_reading hranked, fun reading hreads => ?_⟩
  have hsame : D.accepts unread (.obj (rewriteSchema toJson schema)) =
      D.accepts reading (.obj schema) := by
    have hroot := (rootCombinator_inlined schema).trans h.plain
    rw [rewriteSchema, flattenTopLevelCombinator, hroot]
    exact congrArg Meaning.accepts (meaning_inlineDefs hD h hreads)
  refine ⟨hsame, fun members => ?_⟩
  rw [accepts_patched hD toJson schema members, hsame]

end Meaning

/-! ## A vocabulary -/

/-- The properties that a node declares. -/
def declared (fields : BTreeMap String Meaning) : List String :=
  match BTreeMap.get fields "properties" with
  | some (.named members) => members.map (·.1)
  | _ => []

/-- What one keyword asks of `x`, at a node that declares these properties. -/
def asserts (declared : List String) (key : String) (x : Json) : Meaning → Prop
  | .data v => acceptsPlain key v x = true
  | .schema accepts =>
    if key = "not" then ¬ accepts x
    else if key = "items" then ∀ items, x = .arr items → ∀ v ∈ items, accepts v
    else if key = "additionalProperties" then
      ∀ members, x = .obj members → ∀ n v, (n, v) ∈ members → n ∉ declared → accepts v
    else True
  | .list schemas =>
    if key = "allOf" then ∀ s ∈ schemas, s.accepts x
    else if key = "anyOf" then ∃ s ∈ schemas, s.accepts x
    else if key = "oneOf" then
      ∃ before s after, schemas = before ++ s :: after ∧ s.accepts x ∧
        ∀ other ∈ before ++ after, ¬ other.accepts x
    else True
  | .named members =>
    if key = "properties" then
      ∀ n s, (n, s) ∈ members → ∀ v, x.get n = some v → s.accepts v
    else True

theorem asserts_annotation {key : String} (h : key ∈ "$defs" :: REMARKS) (names : List String)
    (x : Json) (m : Meaning) : asserts names key x m := by
  have hne : key ∉ ["type", "required", "const", "enum", "not", "items", "additionalProperties",
      "allOf", "anyOf", "oneOf", "properties"] := by
    revert key
    decide
  simp only [List.mem_cons, List.not_mem_nil, or_false, not_or] at hne
  cases m <;> simp [asserts, acceptsPlain, hne]

/-- A node asks for what each of its keywords does. -/
def draft : Dialect where
  applicators := SUBSCHEMA_KEYWORDS
  containers := NAMED_SUBSCHEMA_CONTAINERS
  annotations := "$defs" :: REMARKS
  node fields x := ∀ k m, (k, m) ∈ fields → asserts (declared fields) k x m
  node_nil _ := nofun
  node_remove fields k hk := by
    have hdeclared : declared (remove fields k) = declared fields := by
      have hne : "properties" ≠ k := fun heq => absurd (heq ▸ hk) (by decide)
      rw [declared, get_remove_of_ne fields hne, declared]
    funext x
    rw [hdeclared]
    refine propext ⟨fun h k' m hm => ?_, fun h k' m hm => ?_⟩
    · by_cases hk' : k' = k
      · exact asserts_annotation (hk' ▸ hk) _ x m
      · exact h k' m ((mem_remove_iff fields k _).mpr ⟨hm, hk'⟩)
    · exact h k' m ((mem_remove_iff fields k _).mp hm).1
  ref_asks := by decide

theorem mem_insert_of_mem {V : Type*} {map : BTreeMap String V} {k k' : String} {v v' : V}
    (h : (k', v') ∈ map) (hk : k' ≠ k) : (k', v') ∈ insert map k v := by
  have hrest := (mem_remove_iff map k (k', v')).mpr ⟨h, hk⟩
  rw [← remove_insert_self map k v] at hrest
  exact ((mem_remove_iff _ _ _).mp hrest).1

/-- A keyword that asks for nothing here may be added. -/
theorem draft_insert {fields : BTreeMap String Meaning} {key : String} {m : Meaning} {x : Json}
    (habsent : BTreeMap.get fields key = none)
    (hdeclared : declared (insert fields key m) = declared fields)
    (hm : asserts (declared fields) key x m) :
    draft.node (insert fields key m) x ↔ draft.node fields x := by
  show (∀ k m', (k, m') ∈ insert fields key m → asserts (declared (insert fields key m)) k x m') ↔ _
  rw [hdeclared]
  constructor
  · intro h k m' hm'
    have hne : k ≠ key := fun heq =>
      (get_eq_none_iff fields key).mp habsent (List.mem_map.mpr ⟨_, hm', heq⟩)
    exact h k m' (mem_insert_of_mem hm' hne)
  · intro h k m' hm'
    rcases mem_of_mem_insert hm' with he | hin
    · cases he
      exact hm
    · exact h k m' hin

theorem vocabulary_draft : Vocabulary draft where
  applicators := rfl
  containers := rfl
  annotations := rfl
  typed fields members habsent := by
    refine draft_insert habsent ?_ ?_
    · rw [declared, get_insert_of_ne fields _ (by decide), declared]
    · show acceptsPlain "type" (.str "object") (.obj members) = true
      rfl
  undeclared fields habsent := by
    have hdeclared : declared (insert fields "properties" (.named [])) = declared fields := by
      rw [declared, get_insert_self, declared, habsent]
      rfl
    funext x
    refine propext (draft_insert habsent hdeclared ?_)
    show asserts (declared fields) "properties" x (.named [])
    rw [asserts, if_pos rfl]
    exact nofun

/-- The definition of a place. -/
def placeDefinition : JsonObject :=
  [("title", .str "Place"), ("type", .str "string")]

/-- A place by reference, under a title of its own. -/
def placeReference : JsonObject :=
  [("$ref", .str "#/$defs/Place"), ("title", .str "Where")]

def placeSchema : JsonObject :=
  [("$defs", .obj [("Place", .obj placeDefinition)]),
    ("properties", .obj [("at", .obj placeReference)])]

theorem followable_placeDefinition (level : Nat) :
    Followable (defsOf placeSchema) (fun _ => 0) level (.obj placeDefinition) := by
  have hentry : ∀ {k v}, (k, v) ∈ placeDefinition →
      (k = "title" ∧ v = .str "Place") ∨ (k = "type" ∧ v = .str "string") := fun hv => by
    simpa [placeDefinition] using hv
  refine .node rfl (fun k v hv hk => ?_) (fun k members hv => ?_) (fun k members hv => ?_)
    fun k v hv _ _ => ?_
  · rcases hentry hv with ⟨rfl, rfl⟩ | ⟨rfl, rfl⟩
    · exact absurd hk (by decide)
    · exact absurd hk (by decide)
  · rcases hentry hv with ⟨-, h⟩ | ⟨-, h⟩ <;> cases h
  · rcases hentry hv with ⟨-, h⟩ | ⟨-, h⟩ <;> cases h
  · rcases hentry hv with ⟨rfl, rfl⟩ | ⟨rfl, rfl⟩
    · exact ⟨by decide, .inr (.inr (.inl (by decide)))⟩
    · exact ⟨by decide, .inr (.inr (.inr (.leaf nofun rfl rfl)))⟩

theorem followable_placeReference :
    Followable (defsOf placeSchema) (fun _ => 0) MAX_REF_DEPTH (.obj placeReference) := by
  have htarget : refTarget (defsOf placeSchema) placeReference =
      some ("Place", .obj placeDefinition) := rfl
  refine .reference htarget (by decide) fun k v hv => ?_
  have hentry : (k = "$ref" ∧ v = .str "#/$defs/Place") ∨ (k = "title" ∧ v = .str "Where") := by
    simpa [placeReference] using hv
  rcases hentry with ⟨hk, hv⟩ | ⟨rfl, rfl⟩
  · exact .inl ⟨hk, _, hv⟩
  · exact .inr ⟨by decide, by decide⟩

theorem followable_placeSchema : FollowableSchema placeSchema fun _ => 0 where
  root := by
    have hentry : ∀ {k v}, (k, v) ∈ placeSchema →
        (k = "$defs" ∧ v = .obj [("Place", .obj placeDefinition)]) ∨
          (k = "properties" ∧ v = .obj [("at", .obj placeReference)]) := fun hv => by
      simpa [placeSchema] using hv
    refine .node rfl (fun k v hv hk => ?_) (fun k members hv _ => ?_)
      (fun k members hv _ n s hs => ?_) fun k v hv _ hobj => ?_
    · rcases hentry hv with ⟨rfl, -⟩ | ⟨rfl, -⟩
      · exact absurd hk (by decide)
      · exact absurd hk (by decide)
    · rcases hentry hv with ⟨-, h⟩ | ⟨-, h⟩ <;> cases h <;> rfl
    · rcases hentry hv with ⟨-, h⟩ | ⟨-, h⟩ <;> cases h <;> cases List.mem_singleton.mp hs
      · exact followable_placeDefinition _
      · exact followable_placeReference
    · rcases hentry hv with ⟨rfl, rfl⟩ | ⟨rfl, rfl⟩
      · exact absurd (hobj (by decide)) nofun
      · exact absurd (hobj (by decide)) nofun
  unreferenced := rfl
  definitions name definition hdef := by
    have hin := mem_of_get hdef
    cases List.mem_singleton.mp hin
    exact ⟨rfl, followable_placeDefinition _⟩
  plain := rfl

/-- The title is folded into a description, and the place is still a string. -/
theorem placeSchema_keeps_its_meaning :
    (∃! reading, draft.Reads (defsOf placeSchema) reading) ∧
      ∀ reading, draft.Reads (defsOf placeSchema) reading →
        draft.accepts unread (.obj (rewriteSchema (fun _ => "") placeSchema)) =
            draft.accepts reading (.obj placeSchema) ∧
          ∀ members,
            draft.accepts unread (.obj (sanitizeInputSchema (fun _ => "") placeSchema).1)
                (.obj members) ↔
              draft.accepts reading (.obj placeSchema) (.obj members) :=
  sanitizing_keeps_meaning vocabulary_draft (fun _ => "") followable_placeSchema

end McpFramework.Sanitize
