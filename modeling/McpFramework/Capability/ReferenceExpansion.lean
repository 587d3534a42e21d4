import McpFramework.Capability.SiblingMerging

/-!
# Capability — ReferenceExpansion

`resolve_refs` against the expansion of a schema: a reference stands for its
expanded definition, combined with its expanded siblings. The pass merges first
and resolves afterwards, with the definition on the chain also for the siblings,
so a sibling that leads to the same definition is cut although nothing is cyclic.
-/

namespace McpFramework.Sanitize

open Lib BTreeMap Json

/-! ## Expansion -/

mutual

/-- A reference stands for its definition, combined with its expanded siblings. -/
def expandWith (defs : JsonObject) (expanded : Json → Json) : Json → Json
  | .obj map =>
    match refTarget defs map with
    | some (_, definition) =>
      inlineReference (expanded definition) (expandFields defs expanded map)
    | none => .obj (expandFields defs expanded map)
  | .arr items => .arr (expandItems defs expanded items)
  | value => value

def expandFields (defs : JsonObject) (expanded : Json → Json) :
    List (String × Json) → List (String × Json)
  | [] => []
  | (key, v) :: rest => (key, expandWith defs expanded v) :: expandFields defs expanded rest

def expandItems (defs : JsonObject) (expanded : Json → Json) : List Json → List Json
  | [] => []
  | v :: rest => expandWith defs expanded v :: expandItems defs expanded rest

end

/-- The expansion of a value whose references are nested as deep as `levels`. -/
def expand (defs : JsonObject) : Nat → Json → Json
  | 0 => expandWith defs fun definition => definition
  | levels + 1 => expandWith defs (expand defs levels)

theorem expandFields_eq (defs : JsonObject) (expanded : Json → Json) (map : JsonObject) :
    expandFields defs expanded map = mapValues (fun _ v => expandWith defs expanded v) map := by
  induction map with
  | nil => rfl
  | cons e map ih =>
    obtain ⟨key, v⟩ := e
    rw [expandFields, ih, mapValues_cons]

theorem expandItems_eq (defs : JsonObject) (expanded : Json → Json) (items : List Json) :
    expandItems defs expanded items = items.map (expandWith defs expanded) := by
  induction items with
  | nil => rfl
  | cons v items ih => rw [expandItems, ih, List.map_cons]

theorem expandWith_holder {defs map : JsonObject} {expanded : Json → Json} {name : String}
    {definition : Json} (h : refTarget defs map = some (name, definition)) :
    expandWith defs expanded (.obj map) = inlineReference (expanded definition)
      (mapValues (fun _ v => expandWith defs expanded v) map) := by
  rw [expandWith, h]
  simp only [expandFields_eq]

theorem expandWith_plain {defs map : JsonObject} {expanded : Json → Json}
    (h : refTarget defs map = none) :
    expandWith defs expanded (.obj map) =
      .obj (mapValues (fun _ v => expandWith defs expanded v) map) := by
  rw [expandWith, h]
  simp only [expandFields_eq]

/-- What is at each level handed to the definitions. -/
theorem expand_eq_expandWith (defs : JsonObject) (levels : Nat) :
    ∃ expanded, expand defs levels = expandWith defs expanded := by
  cases levels with
  | zero => exact ⟨_, rfl⟩
  | succ levels => exact ⟨_, rfl⟩

theorem expand_leaf (defs : JsonObject) (levels : Nat) {value : Json} (harr : value.asArray = none)
    (hobj : value.asObject = none) : expand defs levels value = value := by
  obtain ⟨expanded, he⟩ := expand_eq_expandWith defs levels
  rw [he]
  cases value with
  | arr items => cases harr
  | obj map => cases hobj
  | _ => rfl

theorem expand_arr (defs : JsonObject) (levels : Nat) (items : List Json) :
    expand defs levels (.arr items) = .arr (items.map (expand defs levels)) := by
  obtain ⟨expanded, he⟩ := expand_eq_expandWith defs levels
  rw [he, expandWith, expandItems_eq]

theorem expand_plain {defs map : JsonObject} (levels : Nat) (h : refTarget defs map = none) :
    expand defs levels (.obj map) = .obj (mapValues (fun _ v => expand defs levels v) map) := by
  obtain ⟨expanded, he⟩ := expand_eq_expandWith defs levels
  rw [he, expandWith_plain h]

/-! ## Acyclic definitions -/

/-- An object in a schema: a reference is to a definition whose rank lies below
`level`, and sits at a schema. -/
structure RefNode (defs : JsonObject) (rank : String → Nat) (level : Nat) (map : JsonObject) :
    Prop where
  sorted : Sorted map
  below : ∀ s, get map "$ref" = some (.str s) →
    ∃ name definition, refTarget defs map = some (name, definition) ∧ rank name < level
  schema : ∀ s, get map "$ref" = some (.str s) → Mergeable map ∧ NamesSchemas map

/-- No definition leads back to itself: `rank` falls along the references. -/
structure Acyclic (defs : JsonObject) (rank : String → Nat) : Prop where
  nodes : ∀ name definition, get defs name = some definition →
    EveryObject (RefNode defs rank (rank name)) definition
  schema : ∀ name map, get defs name = some (.obj map) → Mergeable map ∧ NamesSchemas map

section Ranked

variable {defs : JsonObject} {rank : String → Nat} {level : Nat}

theorem RefNode.lt {map : JsonObject} (h : RefNode defs rank level map) {name : String}
    {definition : Json} (htarget : refTarget defs map = some (name, definition)) :
    rank name < level := by
  obtain ⟨name', definition', htarget', hlt⟩ := h.below _ (refTarget_some htarget).1
  rw [htarget] at htarget'
  cases htarget'
  exact hlt

theorem RefNode.mono {map : JsonObject} (h : RefNode defs rank level map) {level' : Nat}
    (hle : level ≤ level') : RefNode defs rank level' map := by
  refine ⟨h.sorted, fun s hs => ?_, h.schema⟩
  obtain ⟨name, definition, htarget, hlt⟩ := h.below s hs
  exact ⟨name, definition, htarget, Nat.lt_of_lt_of_le hlt hle⟩

theorem refTarget_of_unreferenced {map : JsonObject} (h : ∀ s, get map "$ref" ≠ some (.str s)) :
    refTarget defs map = none := by
  unfold refTarget
  split
  · next s hs => exact absurd hs (h s)
  · rfl

/-- Only the definitions below the level matter to the expansion. -/
theorem expandWith_congr {f g : Json → Json} {value : Json}
    (h : EveryObject (RefNode defs rank level) value)
    (hfg : ∀ name definition, get defs name = some definition → rank name < level →
      f definition = g definition) :
    expandWith defs f value = expandWith defs g value := by
  induction value using Json.walk with
  | arr items ih =>
    simp only [expandWith, expandItems_eq]
    rw [List.map_congr_left fun v hv => ih v hv (h.item hv)]
  | obj map ih =>
    have hfields := mapValues_congr fun k v hv => ih k v hv (h.field hv)
    cases htarget : refTarget defs map with
    | none => rw [expandWith_plain htarget, expandWith_plain htarget, hfields]
    | some target =>
      obtain ⟨name, definition⟩ := target
      rw [expandWith_holder htarget, expandWith_holder htarget, hfields,
        hfg name definition (refTarget_some htarget).2 (h.node.lt htarget)]
  | _ => rfl

/-- More levels than the references are nested make no difference. -/
theorem expand_of_le (hdefs : Acyclic defs rank) {value : Json}
    (h : EveryObject (RefNode defs rank level) value) {levels : Nat} (hle : level ≤ levels) :
    expand defs levels value = expand defs level value := by
  induction level using Nat.strong_induction_on generalizing value levels with
  | h level ih =>
    cases level with
    | zero =>
      obtain ⟨expanded, he⟩ := expand_eq_expandWith defs levels
      rw [he]
      exact expandWith_congr h nofun
    | succ level =>
      obtain ⟨levels, rfl⟩ : ∃ m, levels = m + 1 := ⟨levels - 1, by omega⟩
      apply expandWith_congr h
      intro name definition hdef hlt
      have hnodes := hdefs.nodes name definition hdef
      have hle' : rank name ≤ level := Nat.le_of_lt_succ hlt
      have hle'' : rank name ≤ levels := by omega
      rw [ih (rank name) hlt hnodes hle', ih (rank name) hlt hnodes hle'']

/-- The expansion of a reference, with no levels to count. -/
theorem expand_holder (hdefs : Acyclic defs rank) {map : JsonObject}
    (h : EveryObject (RefNode defs rank level) (.obj map)) {name : String} {definition : Json}
    (htarget : refTarget defs map = some (name, definition)) :
    expand defs level (.obj map) =
      inlineReference (expand defs level definition)
        (mapValues (fun _ v => expand defs level v) map) := by
  have hlt := h.node.lt htarget
  have hnodes := hdefs.nodes name definition (refTarget_some htarget).2
  cases level with
  | zero => cases hlt
  | succ level =>
    rw [expand_of_le hdefs hnodes (Nat.le_of_lt hlt),
      ← expand_of_le hdefs hnodes (Nat.le_of_lt_succ hlt)]
    exact expandWith_holder htarget

/-! ## Merging first -/

/-- The definition combined with the siblings is a node of the same level. -/
theorem refNode_inlineReference (hdefs : Acyclic defs rank) {map : JsonObject}
    (h : EveryObject (RefNode defs rank level) (.obj map)) {name : String} {definition : Json}
    (htarget : refTarget defs map = some (name, definition)) :
    EveryObject (RefNode defs rank level) (inlineReference definition map) := by
  obtain ⟨href, hget⟩ := refTarget_some htarget
  have hdef : EveryObject (RefNode defs rank level) definition :=
    (hdefs.nodes name definition hget).imp fun map hmap => hmap.mono (h.node.lt htarget).le
  obtain ⟨hshape, hnames⟩ := h.node.schema _ href
  cases definition with
  | obj inlined =>
    obtain ⟨hshape', hnames'⟩ := hdefs.schema name inlined hget
    have hprops : SortedProperties map := fun props hp => (h.field (mem_of_get hp)).node.sorted
    have hsame : get (mergeSiblings inlined map) "$ref" = get inlined "$ref" := by
      rw [get_mergeSiblings inlined h.node.sorted, if_pos rfl]
    apply EveryObject.obj
    · refine ⟨sorted_mergeSiblings hdef.node.sorted map, fun s hs => ?_, fun _ _ => ⟨?_, ?_⟩⟩
      · obtain ⟨name', definition', htarget', hlt⟩ := hdef.node.below s (hsame ▸ hs)
        refine ⟨name', definition', ?_, hlt⟩
        -- A merged node refers to what the definition referred to.
        unfold refTarget at htarget' ⊢
        rw [hsame]
        exact htarget'
      · exact mergeable_mergeSiblings h.node.sorted hshape' hshape
      · exact namesSchemas_mergeSiblings h.node.sorted hprops hshape hnames' hnames
    · intro k v hv
      rcases mem_mergeSiblings hdef.node.sorted h.node.sorted hv with hv | ⟨w, hw, -, rfl⟩
      · exact hdef.field hv
      · apply everyObject_siblingValue
        · rintro d s rfl hold rfl hd hs
          have hnone := unreferenced_extend hs.sorted (fun r => hnames' d r hold)
            (fun r => hnames s r (h.node.sorted.get_of_mem hw))
          exact ⟨hd.sorted.extend s, fun r hr => absurd hr (hnone r),
            fun r hr => absurd hr (hnone r)⟩
        · exact fun o ho => hdef.field (mem_of_get ho)
        · exact h.field hw
  | _ => exact hdef

theorem wellFormed_expand (hdefs : ∀ name d, get defs name = some d → WellFormed d) (levels : Nat)
    {value : Json} (h : WellFormed value) : WellFormed (expand defs levels value) := by
  -- One level, whatever stands for the definitions below it.
  have hwith : ∀ expanded : Json → Json,
      (∀ name d, get defs name = some d → WellFormed (expanded d)) →
        ∀ value, WellFormed value → WellFormed (expandWith defs expanded value) := by
    intro expanded hexpanded value h
    induction value using Json.walk with
    | arr items ih =>
      rw [expandWith, expandItems_eq]
      apply EveryObject.arr
      intro v hv
      obtain ⟨w, hw, rfl⟩ := List.mem_map.mp hv
      exact ih w hw (h.item hw)
    | obj map ih =>
      have hfields : WellFormed (.obj (mapValues (fun _ v => expandWith defs expanded v) map)) := by
        apply EveryObject.obj (h.node.mapValues _)
        intro k w hw
        obtain ⟨v, hv, rfl⟩ := (mem_mapValues_iff _ _ _ _).mp hw
        exact ih k v hv (h.field hv)
      cases htarget : refTarget defs map with
      | none =>
        rw [expandWith_plain htarget]
        exact hfields
      | some target =>
        obtain ⟨name, d⟩ := target
        rw [expandWith_holder htarget]
        exact everyObject_inlineReference (fun _ _ hs _ => sorted_mergeSiblings hs _)
          (fun _ _ hs _ => hs.extend _) (hexpanded name d (refTarget_some htarget).2) hfields
    | _ => exact h
  induction levels generalizing value with
  | zero => exact hwith _ hdefs value h
  | succ levels ih => exact hwith _ (fun name d hd => ih (hdefs name d hd)) value h

theorem RefNode.wellFormed {value : Json} (h : EveryObject (RefNode defs rank level) value) :
    WellFormed value :=
  h.imp fun _ hmap => hmap.sorted

theorem wellFormed_expandedFields (level : Nat) (hdefs : Acyclic defs rank) {map : JsonObject}
    (h : WellFormed (.obj map)) :
    WellFormed (.obj (mapValues (fun _ v => expand defs level v) map)) := by
  apply EveryObject.obj (h.node.mapValues _)
  intro k w hw
  obtain ⟨v, hv, rfl⟩ := (mem_mapValues_iff _ _ _ _).mp hw
  exact wellFormed_expand (fun name d hd => RefNode.wellFormed (hdefs.nodes name d hd)) level
    (h.field hv)

/-- Merging the siblings first and expanding the result afterwards is the same. -/
theorem expand_inlineReference (hdefs : Acyclic defs rank) {map : JsonObject}
    (h : EveryObject (RefNode defs rank level) (.obj map)) {name : String} {definition : Json}
    (htarget : refTarget defs map = some (name, definition)) :
    expand defs level (inlineReference definition map) = expand defs level (.obj map) := by
  obtain ⟨href, hget⟩ := refTarget_some htarget
  rw [expand_holder hdefs h htarget]
  cases definition with
  | arr items =>
    simp only [inlineReference]
    rw [expand_arr]
  | obj inlined =>
    have hdef : EveryObject (RefNode defs rank level) (.obj inlined) :=
      (hdefs.nodes name _ hget).imp fun map hmap => hmap.mono (h.node.lt htarget).le
    obtain ⟨hshape, hnames⟩ := h.node.schema _ href
    obtain ⟨hshape', hnames'⟩ := hdefs.schema name inlined hget
    have hstr : ∀ s, expand defs level (.str s) = .str s := fun s => expand_leaf _ _ rfl rfl
    have hobj : ∀ props : JsonObject, (∀ s, get props "$ref" ≠ some (.str s)) →
        expand defs level (.obj props) = .obj (mapValues (fun _ v => expand defs level v) props) :=
      fun props hp => expand_plain level (refTarget_of_unreferenced hp)
    have hmerged := mapValues_mergeSiblings hstr (expand_arr defs level) hobj hdef.node.sorted
      h.node.sorted hshape' hshape hnames' hnames
      (sortedProperties_of_wellFormed (RefNode.wellFormed h))
    have hsame : refTarget defs (mergeSiblings inlined map) = refTarget defs inlined := by
      unfold refTarget
      rw [get_mergeSiblings inlined h.node.sorted, if_pos rfl]
    simp only [inlineReference]
    -- The definition may itself be a reference: then the siblings of both are
    -- merged over what it refers to, grouped either way.
    cases htarget' : refTarget defs inlined with
    | none => rw [expand_plain _ (hsame.trans htarget'), hmerged, expand_plain _ htarget']
    | some target =>
      obtain ⟨name', definition'⟩ := target
      have hfields := wellFormed_expandedFields level hdefs (RefNode.wellFormed h)
      have hfields' := wellFormed_expandedFields level hdefs (RefNode.wellFormed hdef)
      rw [expand_holder hdefs (refNode_inlineReference hdefs h htarget) (hsame.trans htarget'),
        expand_holder hdefs hdef htarget', hmerged]
      cases hbelow : expand defs level definition' with
      | obj below =>
        have hwf : WellFormed (.obj below) := by
          rw [← hbelow]
          exact wellFormed_expand
            (fun name d hd => RefNode.wellFormed (hdefs.nodes name d hd)) level
            (RefNode.wellFormed (hdefs.nodes name' definition' (refTarget_some htarget').2))
        simp only [inlineReference]
        rw [mergeSiblings_assoc hwf.node hfields'.node hfields.node
          (mergeable_mapValues hstr (expand_arr defs level) hobj hshape' hnames')
          (mergeable_mapValues hstr (expand_arr defs level) hobj hshape hnames)
          (sortedProperties_of_wellFormed hwf) (sortedProperties_of_wellFormed hfields')
          (sortedProperties_of_wellFormed hfields)]
      | _ => rfl
  | _ =>
    simp only [inlineReference]
    rw [expand_leaf _ _ rfl rfl]

end Ranked

/-! ## Truncation -/

/-- `resolve_refs_inner` truncates somewhere in the value. -/
inductive Truncates (defs : JsonObject) : List String → Json → Prop where
  | item {chain : List String} {items : List Json} {v : Json} : v ∈ items →
      Truncates defs chain v → Truncates defs chain (.arr items)
  | field {chain : List String} {map : JsonObject} {k : String} {v : Json} :
      refTarget defs map = none → (k, v) ∈ map → Truncates defs chain v →
      Truncates defs chain (.obj map)
  | cut {chain : List String} {map : JsonObject} {name : String} {definition : Json} :
      refTarget defs map = some (name, definition) →
      name ∈ chain ∨ MAX_REF_DEPTH ≤ chain.length → Truncates defs chain (.obj map)
  | deeper {chain : List String} {map : JsonObject} {name : String} {definition : Json} :
      refTarget defs map = some (name, definition) → name ∉ chain →
      chain.length < MAX_REF_DEPTH →
      Truncates defs (chain ++ [name]) (inlineReference definition map) →
      Truncates defs chain (.obj map)

/-- A reference to `target` is met when the references are followed, each with
its siblings merged in. -/
inductive Meets (defs : JsonObject) (target : String) : Json → Prop where
  | item {items : List Json} {v : Json} : v ∈ items → Meets defs target v →
      Meets defs target (.arr items)
  | field {map : JsonObject} {k : String} {v : Json} : refTarget defs map = none →
      (k, v) ∈ map → Meets defs target v → Meets defs target (.obj map)
  | here {map : JsonObject} {definition : Json} :
      refTarget defs map = some (target, definition) → Meets defs target (.obj map)
  | through {map : JsonObject} {name : String} {definition : Json} :
      refTarget defs map = some (name, definition) →
      Meets defs target (inlineReference definition map) → Meets defs target (.obj map)

/-- No reference is met again below itself, with its siblings merged in, and
the references met are nested at most `depth` deep. -/
inductive Clear (defs : JsonObject) : Nat → Json → Prop where
  | leaf {depth : Nat} {v : Json} : v.asArray = none → v.asObject = none → Clear defs depth v
  | arr {depth : Nat} {items : List Json} : (∀ v ∈ items, Clear defs depth v) →
      Clear defs depth (.arr items)
  | plain {depth : Nat} {map : JsonObject} : refTarget defs map = none →
      (∀ k v, (k, v) ∈ map → Clear defs depth v) → Clear defs depth (.obj map)
  | holder {depth : Nat} {map : JsonObject} {name : String} {definition : Json} :
      refTarget defs map = some (name, definition) →
      ¬ Meets defs name (inlineReference definition map) →
      Clear defs depth (inlineReference definition map) → Clear defs (depth + 1) (.obj map)

section Truncation

variable {defs : JsonObject}

theorem truncates_plain_iff {chain : List String} {map : JsonObject}
    (htarget : refTarget defs map = none) :
    Truncates defs chain (.obj map) ↔ ∃ k v, (k, v) ∈ map ∧ Truncates defs chain v := by
  constructor
  · intro h
    cases h with
    | field _ hv h => exact ⟨_, _, hv, h⟩
    | cut htarget' => cases htarget.symm.trans htarget'
    | deeper htarget' => cases htarget.symm.trans htarget'
  · rintro ⟨k, v, hv, h⟩
    exact .field htarget hv h

theorem truncates_inlined_iff {chain : List String} {map : JsonObject} {name : String}
    {definition : Json} (htarget : refTarget defs map = some (name, definition))
    (hchain : name ∉ chain) (hdepth : chain.length < MAX_REF_DEPTH) :
    Truncates defs chain (.obj map) ↔
      Truncates defs (chain ++ [name]) (inlineReference definition map) := by
  constructor
  · intro h
    cases h with
    | field htarget' => cases htarget.symm.trans htarget'
    | cut htarget' hcut =>
      cases htarget.symm.trans htarget'
      rcases hcut with hcut | hcut
      · exact absurd hcut hchain
      · omega
    | deeper htarget' _ _ h =>
      cases htarget.symm.trans htarget'
      exact h
  · exact .deeper htarget hchain hdepth

theorem meets_plain_iff {target : String} {map : JsonObject}
    (htarget : refTarget defs map = none) :
    Meets defs target (.obj map) ↔ ∃ k v, (k, v) ∈ map ∧ Meets defs target v := by
  constructor
  · intro h
    cases h with
    | field _ hv h => exact ⟨_, _, hv, h⟩
    | here htarget' => cases htarget.symm.trans htarget'
    | through htarget' => cases htarget.symm.trans htarget'
  · rintro ⟨k, v, hv, h⟩
    exact .field htarget hv h

theorem meets_holder_iff {target : String} {map : JsonObject} {name : String} {definition : Json}
    (htarget : refTarget defs map = some (name, definition)) :
    Meets defs target (.obj map) ↔
      target = name ∨ Meets defs target (inlineReference definition map) := by
  constructor
  · intro h
    cases h with
    | field htarget' => cases htarget.symm.trans htarget'
    | here htarget' =>
      cases htarget.symm.trans htarget'
      exact Or.inl rfl
    | through htarget' h =>
      cases htarget.symm.trans htarget'
      exact Or.inr h
  · rintro (rfl | h)
    · exact .here htarget
    · exact .through htarget h

theorem Clear.item {depth : Nat} {items : List Json} (h : Clear defs depth (.arr items)) {v : Json}
    (hv : v ∈ items) : Clear defs depth v := by
  cases h with
  | leaf harr => cases harr
  | arr h => exact h v hv

theorem clear_plain_iff {depth : Nat} {map : JsonObject} (htarget : refTarget defs map = none) :
    Clear defs depth (.obj map) ↔ ∀ k v, (k, v) ∈ map → Clear defs depth v := by
  constructor
  · intro h
    cases h with
    | leaf _ hobj => cases hobj
    | plain _ h => exact h
    | holder htarget' => cases htarget.symm.trans htarget'
  · exact .plain htarget

theorem clear_holder_iff {depth : Nat} {map : JsonObject} {name : String} {definition : Json}
    (htarget : refTarget defs map = some (name, definition)) :
    Clear defs (depth + 1) (.obj map) ↔
      ¬ Meets defs name (inlineReference definition map) ∧
        Clear defs depth (inlineReference definition map) := by
  constructor
  · intro h
    cases h with
    | leaf _ hobj => cases hobj
    | plain htarget' => cases htarget.symm.trans htarget'
    | holder htarget' hmeets h =>
      cases htarget.symm.trans htarget'
      exact ⟨hmeets, h⟩
  · exact fun h => .holder htarget h.1 h.2

theorem not_clear_zero {map : JsonObject} {target : String × Json}
    (htarget : refTarget defs map = some target) : ¬ Clear defs 0 (.obj map) := by
  intro h
  cases h with
  | leaf _ hobj => cases hobj
  | plain htarget' => cases htarget.symm.trans htarget'

/-- Nothing is truncated when no reference on the chain is met again, and none
below itself, within the depth that is left. -/
theorem not_truncates_iff (defs : JsonObject) (chain : List String) (value : Json) :
    ¬ Truncates defs chain value ↔ (∀ name ∈ chain, ¬ Meets defs name value) ∧
      Clear defs (MAX_REF_DEPTH - chain.length) value := by
  induction chain, value using resolve_induction with
  | leaf chain value harr hobj =>
    refine ⟨fun _ => ⟨fun name _ h => ?_, .leaf harr hobj⟩, fun _ h => ?_⟩
    · cases h with
      | item => cases harr
      | _ => cases hobj
    · cases h with
      | item => cases harr
      | _ => cases hobj
  | arr chain items ih =>
    constructor
    · intro h
      have hitems := fun v hv => (ih v hv).mp fun hv' => h (.item hv hv')
      refine ⟨fun name hname hmeets => ?_, .arr fun v hv => (hitems v hv).2⟩
      cases hmeets with
      | item hv hmeets => exact (hitems _ hv).1 name hname hmeets
    · rintro ⟨hmeets, hclear⟩ h
      cases h with
      | item hv h =>
        exact (ih _ hv).mpr
          ⟨fun name hname hm => hmeets name hname (.item hv hm), hclear.item hv⟩ h
  | plain chain map htarget ih =>
    rw [truncates_plain_iff htarget, clear_plain_iff htarget]
    constructor
    · intro h
      have hfields := fun k v hv => (ih k v hv).mp fun hv' => h ⟨k, v, hv, hv'⟩
      refine ⟨fun name hname hmeets => ?_, fun k v hv => (hfields k v hv).2⟩
      obtain ⟨k, v, hv, hmeets⟩ := (meets_plain_iff htarget).mp hmeets
      exact (hfields k v hv).1 name hname hmeets
    · rintro ⟨hmeets, hclear⟩ ⟨k, v, hv, h⟩
      apply (ih k v hv).mpr ⟨fun name hname hm => ?_, hclear k v hv⟩ h
      exact hmeets name hname ((meets_plain_iff htarget).mpr ⟨k, v, hv, hm⟩)
  | truncated chain map name definition htarget hcut ih =>
    refine ⟨fun h => absurd (.cut htarget hcut) h, ?_⟩
    rintro ⟨hmeets, hclear⟩ -
    rcases hcut with hcut | hcut
    · exact hmeets name hcut (.here htarget)
    · rw [Nat.sub_eq_zero_of_le hcut] at hclear
      exact not_clear_zero htarget hclear
  | inlined chain map name definition htarget hchain hdepth ih =>
    -- One more name on the chain is one level less to be clear for.
    obtain ⟨left, hleft⟩ : ∃ left, MAX_REF_DEPTH - chain.length = left + 1 :=
      ⟨MAX_REF_DEPTH - chain.length - 1, by omega⟩
    have hlen : MAX_REF_DEPTH - (chain ++ [name]).length = left := by
      rw [List.length_append, List.length_singleton]
      omega
    rw [truncates_inlined_iff htarget hchain hdepth, ih, hlen, hleft, clear_holder_iff htarget]
    constructor
    · rintro ⟨hmeets, hclear⟩
      refine ⟨fun m hm h => ?_, hmeets name (by simp), hclear⟩
      rcases (meets_holder_iff htarget).mp h with rfl | h
      · exact hchain hm
      · exact hmeets m (List.mem_append_left _ hm) h
    · rintro ⟨hmeets, hname, hclear⟩
      refine ⟨fun m hm h => ?_, hclear⟩
      rcases List.mem_append.mp hm with hm | hm
      · exact hmeets m hm ((meets_holder_iff htarget).mpr (Or.inr h))
      · exact hname (List.mem_singleton.mp hm ▸ h)

variable {rank : String → Nat} {level : Nat}

/-- Without truncation the pass computes the expansion. -/
theorem resolveRefsInner_eq_expand (hdefs : Acyclic defs rank) (chain : List String)
    (value : Json) (h : EveryObject (RefNode defs rank level) value)
    (htrunc : ¬ Truncates defs chain value) :
    resolveRefsInner defs chain value = expand defs level value := by
  induction chain, value using resolve_induction with
  | leaf chain value harr hobj =>
    rw [resolveRefsInner_leaf harr hobj, expand_leaf _ _ harr hobj]
  | arr chain items ih =>
    rw [resolveRefsInner_arr, expand_arr]
    congr 1
    apply List.map_congr_left
    exact fun v hv => ih v hv (h.item hv) fun hv' => htrunc (.item hv hv')
  | plain chain map htarget ih =>
    rw [resolveRefsInner_plain htarget, expand_plain _ htarget]
    congr 1
    apply mapValues_congr
    exact fun k v hv => ih k v hv (h.field hv) fun hv' => htrunc (.field htarget hv hv')
  | truncated chain map name definition htarget hcut ih =>
    exact absurd (.cut htarget hcut) htrunc
  | inlined chain map name definition htarget hchain hdepth ih =>
    rw [resolveRefsInner_inlined htarget hchain hdepth, ← expand_inlineReference hdefs h htarget]
    apply ih (refNode_inlineReference hdefs h htarget)
    exact fun h' => htrunc (.deeper htarget hchain hdepth h')

/-- Acyclic references are fully expanded exactly when no reference is met again
below itself: as no definition leads back, among its siblings. -/
theorem resolves_fully_iff (hdefs : Acyclic defs rank) (value : Json)
    (hvalue : EveryObject (RefNode defs rank MAX_REF_DEPTH) value) :
    (resolveRefs defs value = expand defs MAX_REF_DEPTH value ∧ ¬ Truncates defs [] value) ↔
      Clear defs MAX_REF_DEPTH value := by
  have htrunc := not_truncates_iff defs [] value
  simp only [List.not_mem_nil, false_implies, implies_true, true_and, List.length_nil,
    Nat.sub_zero] at htrunc
  constructor
  · exact fun h => htrunc.mp h.2
  · intro h
    exact ⟨resolveRefsInner_eq_expand hdefs [] value hvalue (htrunc.mpr h), htrunc.mpr h⟩

end Truncation

/-- A reading, with the one before it among the siblings of the reference. -/
def readingDefs : JsonObject :=
  [("Reading", .obj
    [("properties", .obj [("value", .obj [("type", .str "number")])]), ("type", .str "object")])]

def readingSchema : JsonObject :=
  [("$ref", .str "#/$defs/Reading"),
    ("properties", .obj [("previous", .obj [("$ref", .str "#/$defs/Reading")])])]

theorem refNode_of_absent {defs map : JsonObject} {rank : String → Nat} {level : Nat}
    (h : Sorted map ∧ get map "$ref" = none) : RefNode defs rank level map := by
  refine ⟨h.1, fun s hs => ?_, fun s hs => ?_⟩
  · cases h.2.symm.trans hs
  · cases h.2.symm.trans hs

theorem acyclic_readingDefs : Acyclic readingDefs fun _ => 0 := by
  have hreading : ∀ name d, get readingDefs name = some d →
      (("Reading", d) : String × Json) ∈ readingDefs := by
    intro name d h
    have hmem := mem_of_get h
    cases List.mem_singleton.mp hmem
    exact hmem
  constructor
  · intro name d h
    cases List.mem_singleton.mp (hreading name d h)
    have hplain : EveryObject (fun map => Sorted map ∧ (get map "$ref").isNone)
        (.obj [("properties", .obj [("value", .obj [("type", .str "number")])]),
          ("type", .str "object")]) := by
      decide
    exact hplain.imp fun map hmap => refNode_of_absent ⟨hmap.1, Option.isNone_iff_eq_none.mp hmap.2⟩
  · intro name map h
    cases List.mem_singleton.mp (hreading name _ h)
    refine ⟨⟨fun v hv => ?_, nofun⟩, fun props s hprops => ?_⟩
    · cases hv
      exact ⟨_, rfl⟩
    · cases hprops
      nofun

theorem refNode_readingSchema :
    EveryObject (RefNode readingDefs (fun _ => 0) MAX_REF_DEPTH) (.obj readingSchema) := by
  have htarget : ∀ map : JsonObject, get map "$ref" = some (.str "#/$defs/Reading") →
      ∀ s, get map "$ref" = some (.str s) → ∃ name definition,
        refTarget readingDefs map = some (name, definition) ∧ 0 < MAX_REF_DEPTH := by
    intro map href _ _
    exact ⟨"Reading", _, refTarget_of_get href rfl, by decide⟩
  have hprevious : EveryObject (RefNode readingDefs (fun _ => 0) MAX_REF_DEPTH)
      (.obj [("$ref", .str "#/$defs/Reading")]) := by
    apply EveryObject.obj ⟨by decide, htarget _ rfl, fun _ _ => ⟨⟨nofun, nofun⟩, nofun⟩⟩
    intro k v hv
    cases List.mem_singleton.mp hv
    exact .str _
  apply EveryObject.obj
  · refine ⟨by decide, htarget _ rfl,
      fun _ _ => ⟨⟨fun v hv => ?_, nofun⟩, fun props s hprops => ?_⟩⟩
    · cases hv
      exact ⟨_, rfl⟩
    · cases hprops
      nofun
  · intro k v hv
    rcases List.mem_cons.mp hv with he | hv
    · cases he
      exact .str _
    · cases List.mem_singleton.mp hv
      apply EveryObject.obj (refNode_of_absent ⟨by decide, rfl⟩)
      intro k v hv
      cases List.mem_singleton.mp hv
      exact hprevious

theorem resolves_fully_readingSchema :
    (resolveRefs readingDefs (.obj readingSchema) =
        expand readingDefs MAX_REF_DEPTH (.obj readingSchema) ∧
      ¬ Truncates readingDefs [] (.obj readingSchema)) ↔
        Clear readingDefs MAX_REF_DEPTH (.obj readingSchema) :=
  resolves_fully_iff acyclic_readingDefs _ refNode_readingSchema

/-- The properties that the schema of the previous reading names. -/
def previousProperties (value : Json) : Option Json :=
  (value.get "properties").bind fun props =>
    (props.get "previous").bind fun previous => previous.get "properties"

/-- The second use of the definition is no cycle, yet its schema is lost. -/
theorem sibling_reuse_is_truncated :
    (Acyclic readingDefs (fun _ => 0) ∧
      EveryObject (RefNode readingDefs (fun _ => 0) MAX_REF_DEPTH) (.obj readingSchema)) ∧
    ¬ (resolveRefs readingDefs (.obj readingSchema) =
        expand readingDefs MAX_REF_DEPTH (.obj readingSchema) ∧
      ¬ Truncates readingDefs [] (.obj readingSchema)) := by
  refine ⟨⟨acyclic_readingDefs, refNode_readingSchema⟩, fun h => ?_⟩
  have hcut :
      (previousProperties (resolveRefs readingDefs (.obj readingSchema))).isSome = false := by
    decide
  have hkept : (previousProperties
      (expand readingDefs MAX_REF_DEPTH (.obj readingSchema))).isSome = true := by
    decide
  rw [h.1, hkept] at hcut
  cases hcut

end McpFramework.Sanitize
