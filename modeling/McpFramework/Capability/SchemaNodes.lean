import McpFramework.Capability.Sanitize

/-!
# Capability — SchemaNodes

What the passes do to the objects of a schema: which fields a node has after
each of them, and rules to carry a property of every object through.
-/

namespace McpFramework.Sanitize

open Lib BTreeMap Json

/-! ## Meta fields -/

theorem mem_foldTitleIntoDescription {map : JsonObject} {k : String} {v : Json}
    (h : (k, v) ∈ foldTitleIntoDescription map) :
    ((k, v) ∈ map ∧ k ≠ "title") ∨ (k = "description" ∧ ∃ s, v = .str s) := by
  unfold foldTitleIntoDescription at h
  split at h
  · next htitle =>
    left
    refine ⟨h, ?_⟩
    rintro rfl
    exact (get_eq_none_iff map "title").mp htitle (List.mem_map.mpr ⟨_, h, rfl⟩)
  · dsimp only at h
    split_ifs at h
    · exact Or.inl ((mem_remove_iff map _ _).mp h)
    · rcases mem_of_mem_insert h with he | h
      · obtain ⟨rfl, rfl⟩ := Prod.mk.inj he
        exact Or.inr ⟨rfl, _, rfl⟩
      · exact Or.inl ((mem_remove_iff map _ _).mp h)
    · exact Or.inl ((mem_remove_iff map _ _).mp h)
  · exact Or.inl ((mem_remove_iff map _ _).mp h)

/-- The fields of a clean node: its own, cleaned, or a title in the place of
its description. -/
theorem mem_sanitizeSchemaNode {map : JsonObject} {k : String} {w : Json}
    (h : (k, w) ∈ sanitizeSchemaNode map) :
    (∃ v, (k, v) ∈ map ∧ k ≠ "title" ∧ k ≠ "$schema" ∧ w = sanitizeKeyword k v) ∨
      (k = "description" ∧ ∃ s, w = .str s) := by
  obtain ⟨v, hv, rfl⟩ := (mem_mapValues_iff _ _ _ _).mp h
  rcases mem_foldTitleIntoDescription hv with ⟨hv, htitle⟩ | ⟨rfl, s, rfl⟩
  · obtain ⟨hv, hschema⟩ := (mem_remove_iff map _ _).mp hv
    exact Or.inl ⟨v, hv, htitle, hschema, rfl⟩
  · right
    refine ⟨rfl, s, ?_⟩
    rw [sanitizeKeyword_of_plain (by decide) (by decide), sanitizeValueRecursive_str]

theorem sorted_sanitizeSchemaNode {map : JsonObject} (h : Sorted map) :
    Sorted (sanitizeSchemaNode map) := by
  apply Sorted.mapValues
  have hrest := h.remove "$schema"
  unfold foldTitleIntoDescription
  split
  · exact hrest
  · dsimp only
    split_ifs
    · exact hrest.remove _
    · exact (hrest.remove _).insert _ _
    · exact hrest.remove _
  · exact hrest.remove _

/-- What holds of `{}` and of a node with its fields cleaned holds after the pass. -/
theorem everyObject_sanitize {P : JsonObject → Prop} (hempty : P [])
    (hnode : ∀ map, P map → P (sanitizeSchemaNode map))
    (hnamed : ∀ named, P named → P (mapValues (fun _ s => sanitizeValueRecursive s) named))
    {value : Json} (h : EveryObject P value) : EveryObject P (sanitizeValueRecursive value) := by
  induction value using Json.walkTwo with
  | leaf v harr hobj =>
    cases v with
    | bool b =>
      cases b with
      | true => exact .obj hempty nofun
      | false => exact .leaf rfl rfl
    | arr items => cases harr
    | obj map => cases hobj
    | _ => exact .leaf rfl rfl
  | arr items ih =>
    rw [sanitizeValueRecursive_arr]
    apply EveryObject.arr
    intro v hv
    obtain ⟨w, hw, rfl⟩ := List.mem_map.mp hv
    exact ih w hw (h.item hw)
  | obj map ih ihNamed =>
    rw [sanitizeValueRecursive_obj]
    apply EveryObject.obj (hnode map h.node)
    intro k w hw
    rcases mem_sanitizeSchemaNode hw with ⟨v, hv, -, -, rfl⟩ | ⟨-, s, rfl⟩
    · have hvalue := h.field hv
      unfold sanitizeKeyword
      split_ifs
      · exact hvalue
      · cases v with
        | obj named =>
          apply EveryObject.obj (hnamed named hvalue.node)
          intro n s hs
          obtain ⟨subschema, hsub, rfl⟩ := (mem_mapValues_iff _ _ _ _).mp hs
          exact ihNamed k named hv n subschema hsub (hvalue.field hsub)
        | _ => exact hvalue
      · exact ih k v hv hvalue
    · exact .str s

/-! ## References -/

/-- What holds of the fields of a definition, and of what a sibling makes of
them, holds of the merged fields. -/
theorem mergeSiblings_forall {Q : String → Json → Prop} {inlined map : JsonObject}
    (hinlined : ∀ k v, (k, v) ∈ inlined → Q k v)
    (hsibling : ∀ k v, (k, v) ∈ map → k ≠ "$ref" → ∀ old, (∀ o, old = some o → Q k o) →
      Q k (siblingValue k old v)) :
    ∀ k v, (k, v) ∈ mergeSiblings inlined map → Q k v := by
  unfold mergeSiblings
  induction map generalizing inlined with
  | nil => exact hinlined
  | cons e map ih =>
    rw [List.foldl_cons]
    apply ih
    · intro k v hv
      split_ifs at hv with href
      · exact hinlined k v hv
      · rcases mem_of_mem_insert hv with he | hv
        · obtain ⟨rfl, rfl⟩ := Prod.mk.inj he
          apply hsibling _ _ List.mem_cons_self href
          intro o ho
          exact hinlined _ o (mem_of_get ho)
        · exact hinlined k v hv
    · exact fun k v hv => hsibling k v (List.mem_cons_of_mem _ hv)

theorem sorted_mergeSiblings {inlined : JsonObject} (h : Sorted inlined) (map : JsonObject) :
    Sorted (mergeSiblings inlined map) := by
  unfold mergeSiblings
  induction map generalizing inlined with
  | nil => exact h
  | cons e map ih =>
    rw [List.foldl_cons]
    apply ih
    split_ifs
    · exact h
    · exact h.insert _ _

theorem sorted_truncateToPermissiveObject {map : JsonObject} (h : Sorted map) :
    Sorted (truncateToPermissiveObject map) := by
  unfold truncateToPermissiveObject
  dsimp only
  split_ifs
  · exact h.remove _
  · exact (h.remove _).insert _ _

theorem mem_unionItems {items siblings : List Json} {v : Json}
    (h : v ∈ unionItems items siblings) : v ∈ items ∨ v ∈ siblings := by
  unfold unionItems at h
  induction siblings generalizing items with
  | nil => exact Or.inl h
  | cons item siblings ih =>
    rw [List.foldl_cons] at h
    rcases ih h with h | h
    · split_ifs at h
      · exact Or.inl h
      · rcases List.mem_append.mp h with h | h
        · exact Or.inl h
        · exact Or.inr (List.mem_cons.mpr (Or.inl (List.mem_singleton.mp h)))
    · exact Or.inr (List.mem_cons_of_mem _ h)

theorem everyObject_siblingValue {P : JsonObject → Prop} {k : String} {old : Option Json}
    {v : Json} (hprops : ∀ d s, k = "properties" → old = some (.obj d) → v = .obj s →
      P d → P s → P (extend d s)) (hold : ∀ o, old = some o → EveryObject P o)
    (hv : EveryObject P v) :
    EveryObject P (siblingValue k old v) := by
  unfold siblingValue
  split
  · next defProps sibProps =>
    split_ifs with hk
    · have hdef := hold _ rfl
      apply EveryObject.obj (hprops _ _ hk rfl rfl hdef.node hv.node)
      intro n w hw
      rcases mem_of_mem_extend hw with hw | hw
      · exact hdef.field hw
      · exact hv.field hw
    · exact hv
  · next defReq sibReq =>
    split_ifs
    · apply EveryObject.arr
      intro w hw
      rcases mem_unionItems hw with hw | hw
      · exact (hold _ rfl).item hw
      · exact hv.item hw
    · exact hv
  · exact hv

theorem everyObject_inlineReference {P : JsonObject → Prop}
    (hmerge : ∀ inlined map, P inlined → P map → P (mergeSiblings inlined map))
    (hprops : ∀ d s, P d → P s → P (extend d s)) {definition : Json} {map : JsonObject}
    (hdef : EveryObject P definition) (hmap : EveryObject P (.obj map)) :
    EveryObject P (inlineReference definition map) := by
  cases definition with
  | obj inlined =>
    apply EveryObject.obj (hmerge inlined map hdef.node hmap.node)
    apply mergeSiblings_forall
    · exact fun k v hv => hdef.field hv
    · exact fun k v hv _ old hold =>
        everyObject_siblingValue (fun d s _ _ _ => hprops d s) hold (hmap.field hv)
  | _ => exact hdef

/-- What a reference finds is a definition, under the name it gives. -/
theorem refTarget_some {defs map : JsonObject} {defName : String} {definition : Json}
    (h : refTarget defs map = some (defName, definition)) :
    get map "$ref" = some (.str ("#/$defs/" ++ defName)) ∧ get defs defName = some definition := by
  unfold refTarget at h
  split at h
  · next refStr href =>
    obtain ⟨name, hname, hdef⟩ := Option.bind_eq_some_iff.mp h
    obtain ⟨d, hd, he⟩ := Option.map_eq_some_iff.mp hdef
    cases he
    rw [href, eq_append_of_stripPrefix? hname]
    exact ⟨rfl, hd⟩
  · cases h

theorem refTarget_of_get {defs map : JsonObject} {defName : String} {definition : Json}
    (href : get map "$ref" = some (.str ("#/$defs/" ++ defName)))
    (hdef : get defs defName = some definition) :
    refTarget defs map = some (defName, definition) := by
  simp only [refTarget, href, stripPrefix?_append, Option.bind_some, hdef, Option.map_some]

/-- The fields of a truncated node after their own references were followed. -/
theorem mem_truncated {defs map : JsonObject} {chain : List String} {k : String} {w : Json}
    (h : (k, w) ∈ mapValues (fun _ v => resolveRefsInner defs chain v)
      (truncateToPermissiveObject map)) :
    (∃ v, (k, v) ∈ map ∧ k ≠ "$ref" ∧ w = resolveRefsInner defs chain v) ∨
      (k = "type" ∧ w = .str "object") := by
  obtain ⟨v, hv, rfl⟩ := (mem_mapValues_iff _ _ _ _).mp h
  rcases mem_truncateToPermissiveObject hv with ⟨hv, href⟩ | ⟨rfl, rfl⟩
  · exact Or.inl ⟨v, hv, href, rfl⟩
  · exact Or.inr ⟨rfl, resolveRefsInner_str _ _ _⟩

/-- What the fields of a plain and of a truncated node have when their own
references were followed, every object has after the pass. -/
theorem everyObject_resolve {defs : JsonObject} {Q P : JsonObject → Prop}
    (hplain : ∀ chain map, Q map → refTarget defs map = none →
      P (mapValues (fun _ v => resolveRefsInner defs chain v) map))
    (htruncated : ∀ chain map, Q map →
      P (mapValues (fun _ v => resolveRefsInner defs chain v) (truncateToPermissiveObject map)))
    (hinlined : ∀ map name definition, get defs name = some definition →
      EveryObject Q (.obj map) → EveryObject Q (inlineReference definition map))
    (chain : List String) (value : Json) (h : EveryObject Q value) :
    EveryObject P (resolveRefsInner defs chain value) := by
  induction chain, value using resolve_induction with
  | leaf chain value harr hobj =>
    rw [resolveRefsInner_leaf harr hobj]
    exact .leaf harr hobj
  | arr chain items ih =>
    rw [resolveRefsInner_arr]
    apply EveryObject.arr
    intro v hv
    obtain ⟨w, hw, rfl⟩ := List.mem_map.mp hv
    exact ih w hw (h.item hw)
  | plain chain map htarget ih =>
    rw [resolveRefsInner_plain htarget]
    apply EveryObject.obj (hplain chain map h.node htarget)
    intro k w hw
    obtain ⟨v, hv, rfl⟩ := (mem_mapValues_iff _ _ _ _).mp hw
    exact ih k v hv (h.field hv)
  | truncated chain map defName definition htarget hcut ih =>
    rw [resolveRefsInner_truncated htarget hcut]
    apply EveryObject.obj (htruncated chain map h.node)
    intro k w hw
    obtain ⟨v, hv, rfl⟩ := (mem_mapValues_iff _ _ _ _).mp hw
    apply ih k v hv
    -- The type that truncation adds is a string, which is no object.
    rcases mem_truncateToPermissiveObject hv with ⟨hv, -⟩ | ⟨-, rfl⟩
    · exact h.field hv
    · exact .str _
  | inlined chain map defName definition htarget hchain hdepth ih =>
    rw [resolveRefsInner_inlined htarget hchain hdepth]
    exact ih (hinlined map defName definition (refTarget_some htarget).2 h)

end McpFramework.Sanitize
