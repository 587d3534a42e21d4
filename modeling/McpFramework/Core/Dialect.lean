import McpFramework.Core.JsonObject
import McpFramework.Core.Text

/-!
# Core — Dialect

What JSON schemas mean, for any vocabulary whose keywords see of a subschema no
more than the values it accepts. A node is free to read its keywords together, as
`additionalProperties` does `properties`.

A reference asks for what its definition asks for, beside the node's own keywords.
The definitions of a schema may refer to each other, so what they accept is a
solution of equations: a `Reading`. There is exactly one where the references fall
in some rank.
-/

namespace McpFramework

open Lib BTreeMap Json

/-! ## Vocabularies -/

/-- What a node sees of the value of a keyword. -/
inductive Meaning where
  | data (v : Json)
  | schema (accepts : Json → Prop)
  | list (items : List Meaning)
  | named (members : List (String × Meaning))

/-- What a value in schema position accepts; what is no schema asks for nothing. -/
def Meaning.accepts : Meaning → Json → Prop
  | .schema accepts => accepts
  | _ => fun _ => True

/-- A vocabulary of keywords, with what a node that uses them accepts. -/
structure Dialect where
  /-- Keywords whose value is a schema or a list of schemas. -/
  applicators : List String
  /-- Keywords whose value maps names to schemas. -/
  containers : List String
  /-- Keywords that ask for nothing. -/
  annotations : List String
  node : BTreeMap String Meaning → Json → Prop
  node_nil : ∀ x, node [] x
  node_remove : ∀ fields k, k ∈ annotations → node (remove fields k) = node fields
  ref_asks : "$ref" ∉ annotations

/-- The definition a node refers to, by its name. -/
def refName (map : JsonObject) : Option String :=
  match get map "$ref" with
  | some (.str refStr) => stripPrefix? refStr "#/$defs/"
  | _ => none

/-- What the definitions accept. -/
abbrev Reading := String → Option (Json → Prop)

namespace Dialect

variable (D : Dialect) (reading : Reading)

def nodeAccepts (map : JsonObject) (fields : BTreeMap String Meaning) : Json → Prop :=
  match (refName map).bind reading with
  | some accepts => fun x => D.node (remove fields "$ref") x ∧ accepts x
  | none => D.node fields

mutual

/-- The meaning of a value in schema position. -/
def meaning : Json → Meaning
  | .obj map => .schema (D.nodeAccepts reading map (fieldMeanings map))
  | .arr items => .list (itemMeanings items)
  | .bool b => .schema fun _ => b = true
  | v => .data v

def fieldMeanings : List (String × Json) → List (String × Meaning)
  | [] => []
  | (key, v) :: rest =>
    (key,
      if D.applicators.contains key then meaning v
      else if D.containers.contains key then
        match v with
        | .obj members => .named (memberMeanings members)
        | v => .data v
      else .data v) :: fieldMeanings rest

def memberMeanings : List (String × Json) → List (String × Meaning)
  | [] => []
  | (name, subschema) :: rest => (name, meaning subschema) :: memberMeanings rest

def itemMeanings : List Json → List Meaning
  | [] => []
  | v :: rest => meaning v :: itemMeanings rest

end

/-- What a node sees of the value of one keyword. -/
def keywordMeaning (key : String) (v : Json) : Meaning :=
  if D.applicators.contains key then D.meaning reading v
  else if D.containers.contains key then
    match v with
    | .obj members => .named (mapValues (fun _ subschema => D.meaning reading subschema) members)
    | v => .data v
  else .data v

def accepts (v : Json) : Json → Prop := (D.meaning reading v).accepts

theorem memberMeanings_eq (members : JsonObject) :
    D.memberMeanings reading members =
      mapValues (fun _ subschema => D.meaning reading subschema) members := by
  induction members with
  | nil => rfl
  | cons e members ih =>
    obtain ⟨name, subschema⟩ := e
    rw [memberMeanings, ih, mapValues_cons]

theorem fieldMeanings_eq (map : JsonObject) :
    D.fieldMeanings reading map = mapValues (D.keywordMeaning reading) map := by
  induction map with
  | nil => rfl
  | cons e map ih =>
    obtain ⟨key, v⟩ := e
    have hhead : D.fieldMeanings reading ((key, v) :: map) =
        (key, D.keywordMeaning reading key v) :: D.fieldMeanings reading map := by
      cases v with
      | obj members => simp only [fieldMeanings, keywordMeaning, memberMeanings_eq]
      | _ => rfl
    rw [hhead, ih, mapValues_cons]

theorem itemMeanings_eq (items : List Json) :
    D.itemMeanings reading items = items.map (D.meaning reading) := by
  induction items with
  | nil => rfl
  | cons v items ih => rw [itemMeanings, ih, List.map_cons]

theorem meaning_obj (map : JsonObject) :
    D.meaning reading (.obj map) =
      .schema (D.nodeAccepts reading map (mapValues (D.keywordMeaning reading) map)) := by
  rw [meaning, fieldMeanings_eq]

theorem meaning_arr (items : List Json) :
    D.meaning reading (.arr items) = .list (items.map (D.meaning reading)) := by
  rw [meaning, itemMeanings_eq]

/-! ## Keywords -/

section Keywords

variable {D} {reading} {key : String} {v : Json}

theorem keywordMeaning_applicator (h : key ∈ D.applicators) :
    D.keywordMeaning reading key v = D.meaning reading v := by
  unfold keywordMeaning
  rw [if_pos (List.contains_iff_mem.mpr h)]

theorem keywordMeaning_container (happ : key ∉ D.applicators) (h : key ∈ D.containers)
    (members : JsonObject) :
    D.keywordMeaning reading key (.obj members) =
      .named (mapValues (fun _ subschema => D.meaning reading subschema) members) := by
  unfold keywordMeaning
  rw [if_neg (by simpa using happ), if_pos (List.contains_iff_mem.mpr h)]

/-- Any other value is seen as it is. -/
theorem keywordMeaning_data (happ : key ∉ D.applicators)
    (h : key ∈ D.containers → v.asObject = none) : D.keywordMeaning reading key v = .data v := by
  unfold keywordMeaning
  rw [if_neg (by simpa using happ)]
  split
  · next hcontainer =>
    have hobj := h (List.contains_iff_mem.mp hcontainer)
    cases v with
    | obj members => cases hobj
    | _ => rfl
  · rfl

end Keywords

/-! ## Annotations -/

/-- The fields that ask for something. -/
def essential {V : Type*} (map : BTreeMap String V) : BTreeMap String V :=
  map.filter fun e => decide (e.1 ∉ D.annotations)

section Annotations

variable {D} {reading} {V : Type*}

theorem mem_essential_iff {map : BTreeMap String V} {e : String × V} :
    e ∈ D.essential map ↔ e ∈ map ∧ e.1 ∉ D.annotations := by
  simp [essential]

theorem essential_mapValues {W : Type*} (f : String → V → W) (map : BTreeMap String V) :
    D.essential (mapValues f map) = mapValues f (D.essential map) := by
  unfold essential mapValues
  rw [List.filter_map]
  rfl

theorem get_essential (map : BTreeMap String V) {k : String} (hk : k ∉ D.annotations) :
    get (D.essential map) k = get map k := by
  induction map with
  | nil => rfl
  | cons e map ih =>
    have hcons : D.essential (e :: map) =
        if e.1 ∉ D.annotations then e :: D.essential map else D.essential map := by
      by_cases he : e.1 ∈ D.annotations
      · simp [essential, he]
      · simp [essential, he]
    rw [hcons, get_cons]
    by_cases he : e.1 ∈ D.annotations
    · have hne : e.1 ≠ k := fun heq => hk (heq ▸ he)
      rw [if_neg (not_not.mpr he), ih, if_neg hne]
    · rw [if_pos he, get_cons, ih]

theorem essential_remove (map : BTreeMap String V) {k : String} (hk : k ∈ D.annotations) :
    D.essential (remove map k) = D.essential map := by
  unfold essential remove
  rw [List.filter_filter]
  refine List.filter_congr fun e _ => ?_
  by_cases he : e.1 ∈ D.annotations
  · simp [he]
  · have hne : e.1 ≠ k := fun heq => he (heq ▸ hk)
    simp [he, hne]

theorem essential_insert (map : BTreeMap String V) {k : String} (v : V)
    (hk : k ∈ D.annotations) : D.essential (insert map k v) = D.essential map := by
  rw [← essential_remove _ hk, remove_insert_self, essential_remove _ hk]

/-- Annotations decide nothing. -/
theorem node_essential (fields : BTreeMap String Meaning) :
    D.node (D.essential fields) = D.node fields := by
  have hremove : ∀ ks : List String, (∀ k ∈ ks, k ∈ D.annotations) →
      D.node (fields.filter fun e => decide (e.1 ∉ ks)) = D.node fields := by
    intro ks hks
    induction ks with
    | nil => simp
    | cons k ks ih =>
      obtain ⟨hk, hks⟩ := List.forall_mem_cons.mp hks
      have hsplit : (fields.filter fun e => decide (e.1 ∉ k :: ks)) =
          remove (fields.filter fun e => decide (e.1 ∉ ks)) k := by
        rw [remove, List.filter_filter]
        refine List.filter_congr fun e _ => ?_
        by_cases he : e.1 = k <;> simp [he]
      rw [hsplit, D.node_remove _ k hk, ih hks]
  exact hremove D.annotations fun k hk => hk

theorem nodeAccepts_congr {map map' : JsonObject} {fields fields' : BTreeMap String Meaning}
    (href : refName map = refName map')
    (hfields : D.essential fields = D.essential fields') :
    D.nodeAccepts reading map fields = D.nodeAccepts reading map' fields' := by
  have hnode : ∀ f f' : BTreeMap String Meaning, D.essential f = D.essential f' →
      D.node f = D.node f' := fun f f' h => by
    rw [← node_essential f, h, node_essential]
  have hremove : D.essential (remove fields "$ref") = D.essential (remove fields' "$ref") := by
    have hcomm : ∀ f : BTreeMap String Meaning,
        D.essential (remove f "$ref") = remove (D.essential f) "$ref" := fun f => by
      unfold essential remove
      rw [List.filter_filter, List.filter_filter]
      exact List.filter_congr fun e _ => Bool.and_comm _ _
    rw [hcomm, hcomm, hfields]
  unfold nodeAccepts
  rw [href, hnode _ _ hfields, hnode _ _ hremove]

/-- Nodes that ask for the same mean the same. -/
theorem meaning_of_essential {map map' : JsonObject}
    (h : D.essential map = D.essential map') :
    D.meaning reading (.obj map) = D.meaning reading (.obj map') := by
  have href : refName map = refName map' := by
    unfold refName
    rw [← get_essential map D.ref_asks, h, get_essential map' D.ref_asks]
  rw [meaning_obj, meaning_obj]
  refine congrArg Meaning.schema (nodeAccepts_congr href ?_)
  rw [essential_mapValues, essential_mapValues, h]

/-- A node with nothing but annotations accepts anything. -/
theorem node_of_annotations {fields : BTreeMap String Meaning}
    (h : ∀ k ∈ keys fields, k ∈ D.annotations) (x : Json) : D.node fields x := by
  have hnone : D.essential fields = [] := by
    refine List.filter_eq_nil_iff.mpr fun e he => ?_
    simpa using h e.1 (List.mem_map.mpr ⟨e, he, rfl⟩)
  rw [← node_essential, hnone]
  exact D.node_nil x

end Annotations

/-! ## Definitions -/

/-- Each definition accepts what it says, with what the others accept. -/
def Reads (defs : JsonObject) (reading : Reading) : Prop :=
  ∀ name, reading name = (get defs name).map (D.accepts reading)

/-- `P` holds of the name of every reference in schema position. -/
inductive References (P : String → Prop) : Json → Prop where
  | leaf {v : Json} : v.asArray = none → v.asObject = none → References P v
  | items {items : List Json} : (∀ v ∈ items, References P v) → References P (.arr items)
  | node {map : JsonObject} : (∀ name, refName map = some name → P name) →
      (∀ k v, (k, v) ∈ map → k ∈ D.applicators → References P v) →
      (∀ k members, (k, .obj members) ∈ map → k ∈ D.containers →
        ∀ n s, (n, s) ∈ members → References P s) → References P (.obj map)

variable {D}

/-- A meaning is made of what the definitions accept that are referred to. -/
theorem meaning_congr {P : String → Prop} {r r' : Reading} (hr : ∀ name, P name → r name = r' name)
    {v : Json} (h : D.References P v) : D.meaning r v = D.meaning r' v := by
  induction v using Json.walkTwo with
  | leaf v harr hobj =>
    cases v with
    | arr items => cases harr
    | obj map => cases hobj
    | _ => rfl
  | arr items ih =>
    cases h with
    | leaf harr => cases harr
    | items h =>
      rw [meaning_arr, meaning_arr, List.map_congr_left fun v hv => ih v hv (h v hv)]
  | obj map ih ihMembers =>
    cases h with
    | leaf _ hobj => cases hobj
    | node href happ hcontainer =>
      have hfields : mapValues (D.keywordMeaning r) map = mapValues (D.keywordMeaning r') map := by
        refine mapValues_congr fun k v hv => ?_
        by_cases hk : k ∈ D.applicators
        · rw [keywordMeaning_applicator hk, keywordMeaning_applicator hk,
            ih k v hv (happ k v hv hk)]
        · by_cases hc : k ∈ D.containers
          · cases v with
            | obj members =>
              rw [keywordMeaning_container hk hc, keywordMeaning_container hk hc]
              refine congrArg Meaning.named (mapValues_congr fun n s hs => ?_)
              exact ihMembers k members hv n s hs (hcontainer k members hv hc n s hs)
            | _ => rw [keywordMeaning_data hk fun _ => rfl, keywordMeaning_data hk fun _ => rfl]
          · rw [keywordMeaning_data hk fun h => absurd h hc,
              keywordMeaning_data hk fun h => absurd h hc]
      have hbind : (refName map).bind r = (refName map).bind r' := by
        cases hname : refName map with
        | none => rfl
        | some name => exact hr name (href name hname)
      rw [meaning_obj, meaning_obj, nodeAccepts, nodeAccepts, hfields, hbind]

theorem accepts_congr {P : String → Prop} {r r' : Reading} (hr : ∀ name, P name → r name = r' name)
    {v : Json} (h : D.References P v) : D.accepts r v = D.accepts r' v := by
  rw [accepts, meaning_congr hr h, accepts]

section Ranked

variable {defs : JsonObject} {rank : String → Nat}

/-- The definitions refer to definitions of a lower rank. -/
def Ranked (D : Dialect) (defs : JsonObject) (rank : String → Nat) : Prop :=
  ∀ name d, get defs name = some d →
    D.References (fun other => other ∈ keys defs → rank other < rank name) d

/-- What the definitions accept when references are followed so many levels deep. -/
def readingAt (D : Dialect) (defs : JsonObject) : Nat → Reading
  | 0, name => (get defs name).map fun _ _ => True
  | levels + 1, name => (get defs name).map (D.accepts (readingAt D defs levels))

theorem readingAt_of_absent {name : String} (h : name ∉ keys defs) (levels : Nat) :
    D.readingAt defs levels name = none := by
  have hnone := (get_eq_none_iff defs name).mpr h
  cases levels with
  | zero =>
    rw [readingAt, hnone]
    rfl
  | succ levels =>
    rw [readingAt, hnone]
    rfl

/-- One level reads what a reading says of the definitions it refers to. -/
theorem readingAt_succ (h : D.Ranked defs rank) {name : String} {levels : Nat} {reading : Reading}
    (hbelow : ∀ other ∈ keys defs, rank other < rank name →
      D.readingAt defs levels other = reading other)
    (habsent : ∀ other, other ∉ keys defs → reading other = none) :
    D.readingAt defs (levels + 1) name = (get defs name).map (D.accepts reading) := by
  rw [readingAt]
  cases hd : get defs name with
  | none => rfl
  | some d =>
    refine congrArg some (accepts_congr (fun other hother => ?_) (h name d hd))
    by_cases hin : other ∈ keys defs
    · exact hbelow other hin (hother hin)
    · rw [readingAt_of_absent hin, habsent other hin]

/-- More levels than the rank make no difference. -/
theorem readingAt_eq (h : D.Ranked defs rank) {name : String} {n m : Nat} (hn : rank name < n)
    (hm : rank name < m) : D.readingAt defs n name = D.readingAt defs m name := by
  induction hrank : rank name using Nat.strong_induction_on generalizing name n m with
  | h r ih =>
    obtain ⟨n, rfl⟩ : ∃ i, n = i + 1 := ⟨n - 1, by omega⟩
    obtain ⟨m, rfl⟩ : ∃ i, m = i + 1 := ⟨m - 1, by omega⟩
    have hbelow : ∀ other ∈ keys defs, rank other < rank name →
        D.readingAt defs n other = D.readingAt defs m other := fun other _ hlt =>
      ih (rank other) (hrank ▸ hlt) (by omega) (by omega) rfl
    rw [readingAt_succ h hbelow fun other hin => readingAt_of_absent hin m, readingAt]

/-- **Definitions have one reading** where their references fall in rank. -/
theorem exists_unique_reading (h : D.Ranked defs rank) : ∃! reading, D.Reads defs reading := by
  refine ⟨fun name => D.readingAt defs (rank name + 1) name, fun name => ?_, fun other hreads => ?_⟩
  · exact readingAt_succ h (fun next _ hlt => readingAt_eq h hlt (Nat.lt_succ_self _))
      fun next hin => readingAt_of_absent hin _
  · funext name
    have habsent : ∀ next, next ∉ keys defs → other next = none := fun next hin => by
      rw [hreads next, (get_eq_none_iff defs next).mpr hin]
      rfl
    induction hrank : rank name using Nat.strong_induction_on generalizing name with
    | h r ih =>
      have hbelow : ∀ next ∈ keys defs, rank next < rank name →
          D.readingAt defs (rank name) next = other next := fun next _ hlt => by
        rw [ih (rank next) (hrank ▸ hlt) next rfl]
        exact readingAt_eq h hlt (Nat.lt_succ_self _)
      rw [← hrank, readingAt_succ h hbelow habsent]
      exact hreads name

end Ranked

end Dialect
end McpFramework
