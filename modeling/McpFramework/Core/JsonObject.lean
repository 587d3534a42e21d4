import McpFramework.Core.Json
import McpFramework.Lib.BTreeMap
import Mathlib.Data.String.Basic

/-!
# Core — JsonObject

`serde_json::Map` (a `BTreeMap`: the framework builds without `preserve_order`),
equality of JSON values, and induction over them.
-/

namespace McpFramework

open Lib

/-- `serde_json::Map<String, Value>`. -/
abbrev JsonObject := BTreeMap String Json

namespace Json

def asObject : Json → Option JsonObject
  | .obj map => some map
  | _ => none

def asArray : Json → Option (List Json)
  | .arr items => some items
  | _ => none

/-- `Value::get` of a string: only an object has members. -/
def get (value : Json) (key : String) : Option Json :=
  value.asObject.bind fun map => BTreeMap.get map key

@[simp] theorem get_obj (map : JsonObject) (key : String) :
    get (.obj map) key = BTreeMap.get map key := rfl

/-- The value of a member is a value of the object. -/
theorem exists_obj_of_get {value v : Json} {key : String} (h : value.get key = some v) :
    ∃ map, value = .obj map ∧ BTreeMap.get map key = some v := by
  cases value with
  | obj map => exact ⟨map, rfl, h⟩
  | _ => cases h

/-! ## Equality -/

/-- Floats of a JSON number are never NaN; both zeros are equal. -/
def numberEq : JsonNumber → JsonNumber → Bool
  | .posInt a, .posInt b => a == b
  | .negInt a, .negInt b => a == b
  | .float a, .float b => a == b || (a % 2 ^ 63 == 0 && b % 2 ^ 63 == 0)
  | _, _ => false

mutual

/-- `PartialEq for Value`. -/
def valueEq : Json → Json → Bool
  | .null, .null => true
  | .bool a, .bool b => a == b
  | .num a, .num b => numberEq a b
  | .str a, .str b => a == b
  | .arr a, .arr b => itemsEq a b
  | .obj a, .obj b => entriesEq a b
  | _, _ => false

def itemsEq : List Json → List Json → Bool
  | [], [] => true
  | a :: as, b :: bs => valueEq a b && itemsEq as bs
  | _, _ => false

def entriesEq : List (String × Json) → List (String × Json) → Bool
  | [], [] => true
  | (j, a) :: as, (k, b) :: bs => j == k && valueEq a b && entriesEq as bs
  | _, _ => false

end

@[simp] theorem valueEq_str (a b : String) : valueEq (.str a) (.str b) = (a == b) := by
  simp [valueEq]

/-! ## Induction -/

/-- A value has what its items and its members hand on to it. -/
@[elab_as_elim]
theorem walk {P : Json → Prop} (value : Json) (null : P .null) (bool : ∀ b, P (.bool b))
    (num : ∀ n, P (.num n)) (str : ∀ s, P (.str s))
    (arr : ∀ items : List Json, (∀ v ∈ items, P v) → P (.arr items))
    (obj : ∀ map : JsonObject, (∀ k v, (k, v) ∈ map → P v) → P (.obj map)) : P value := by
  apply @Json.rec P (fun items => ∀ v ∈ items, P v) (fun entries => ∀ e ∈ entries, P e.2)
    (fun e => P e.2) null bool num str arr (fun map ih => obj map fun k v h => ih (k, v) h)
  · intro v hv
    cases hv
  · intro head tail hhead htail v hv
    rcases List.mem_cons.mp hv with rfl | hv
    · exact hhead
    · exact htail v hv
  · intro e he
    cases he
  · intro head tail hhead htail e he
    rcases List.mem_cons.mp he with rfl | he
    · exact hhead
    · exact htail e he
  · intro _ v hv
    exact hv

/-- A value may also use what the members of its members have. -/
@[elab_as_elim]
theorem walkTwo {P : Json → Prop} (value : Json)
    (leaf : ∀ v : Json, v.asArray = none → v.asObject = none → P v)
    (arr : ∀ items : List Json, (∀ v ∈ items, P v) → P (.arr items))
    (obj : ∀ map : JsonObject, (∀ k v, (k, v) ∈ map → P v) →
      (∀ k (named : JsonObject), (k, .obj named) ∈ map → ∀ n v, (n, v) ∈ named → P v) →
      P (.obj map)) : P value := by
  have both : P value ∧ ∀ map, value = .obj map → ∀ k v, (k, v) ∈ map → P v := by
    induction value using walk with
    | arr items ih => exact ⟨arr items fun v hv => (ih v hv).1, nofun⟩
    | obj map ih =>
      have hmembers : ∀ k v, (k, v) ∈ map → P v := fun k v hv => (ih k v hv).1
      constructor
      · exact obj map hmembers fun k named hnamed n v hv => (ih k _ hnamed).2 named rfl n v hv
      · intro map' he
        cases he
        exact hmembers
    | _ => exact ⟨leaf _ rfl rfl, nofun⟩
  exact both.1

/-! ## Every object of a value -/

/-- `P` holds of every object in a value, at any depth. -/
inductive EveryObject (P : JsonObject → Prop) : Json → Prop where
  | leaf {v : Json} : v.asArray = none → v.asObject = none → EveryObject P v
  | arr {items : List Json} : (∀ v ∈ items, EveryObject P v) → EveryObject P (.arr items)
  | obj {map : JsonObject} : P map → (∀ k v, (k, v) ∈ map → EveryObject P v) →
      EveryObject P (.obj map)

namespace EveryObject

variable {P Q : JsonObject → Prop}

theorem item {items : List Json} (h : EveryObject P (.arr items)) {v : Json} (hv : v ∈ items) :
    EveryObject P v := by
  cases h with
  | leaf harr => cases harr
  | arr h => exact h v hv

theorem node {map : JsonObject} (h : EveryObject P (.obj map)) : P map := by
  cases h with
  | leaf _ hobj => cases hobj
  | obj h => exact h

theorem field {map : JsonObject} (h : EveryObject P (.obj map)) {k : String} {v : Json}
    (hv : (k, v) ∈ map) : EveryObject P v := by
  cases h with
  | leaf _ hobj => cases hobj
  | obj _ h => exact h k v hv

theorem str (s : String) : EveryObject P (.str s) := leaf rfl rfl

theorem and {v : Json} (hP : EveryObject P v) (hQ : EveryObject Q v) :
    EveryObject (fun map => P map ∧ Q map) v := by
  induction v using walk with
  | arr items ih => exact arr fun v hv => ih v hv (hP.item hv) (hQ.item hv)
  | obj map ih =>
    exact obj ⟨hP.node, hQ.node⟩ fun k v hv => ih k v hv (hP.field hv) (hQ.field hv)
  | _ => exact leaf rfl rfl

theorem of_forall (h : ∀ map, P map) (v : Json) : EveryObject P v := by
  induction v using walk with
  | arr items ih => exact arr ih
  | obj map ih => exact obj (h map) ih
  | _ => exact leaf rfl rfl

theorem imp {v : Json} (h : EveryObject P v) (hPQ : ∀ map, P map → Q map) : EveryObject Q v := by
  induction v using walk with
  | arr items ih => exact arr fun v hv => ih v hv (h.item hv)
  | obj map ih => exact obj (hPQ map h.node) fun k v hv => ih k v hv (h.field hv)
  | _ => exact leaf rfl rfl

end EveryObject

mutual

def everyObject (p : JsonObject → Bool) : Json → Bool
  | .arr items => everyItem p items
  | .obj map => p map && everyField p map
  | _ => true

def everyItem (p : JsonObject → Bool) : List Json → Bool
  | [] => true
  | v :: rest => everyObject p v && everyItem p rest

def everyField (p : JsonObject → Bool) : List (String × Json) → Bool
  | [] => true
  | (_, v) :: rest => everyObject p v && everyField p rest

end

theorem everyItem_iff (p : JsonObject → Bool) (items : List Json) :
    everyItem p items = true ↔ ∀ v ∈ items, everyObject p v = true := by
  induction items with
  | nil => simp [everyItem]
  | cons v items ih => rw [everyItem, Bool.and_eq_true, ih, List.forall_mem_cons]

theorem everyField_iff (p : JsonObject → Bool) (map : JsonObject) :
    everyField p map = true ↔ ∀ k v, (k, v) ∈ map → everyObject p v = true := by
  induction map with
  | nil => simp [everyField]
  | cons e map ih =>
    obtain ⟨k, v⟩ := e
    rw [everyField, Bool.and_eq_true, ih]
    constructor
    · rintro ⟨hhead, htail⟩ k' v' h
      rcases List.mem_cons.mp h with he | h
      · cases he
        exact hhead
      · exact htail k' v' h
    · intro h
      exact ⟨h k v List.mem_cons_self, fun k' v' h' => h k' v' (List.mem_cons_of_mem _ h')⟩

theorem everyObject_iff (p : JsonObject → Bool) (value : Json) :
    everyObject p value = true ↔ EveryObject (fun map => p map = true) value := by
  induction value using walk with
  | arr items ih =>
    rw [everyObject, everyItem_iff]
    constructor
    · exact fun h => .arr fun v hv => (ih v hv).mp (h v hv)
    · exact fun h v hv => (ih v hv).mpr (h.item hv)
  | obj map ih =>
    rw [everyObject, Bool.and_eq_true, everyField_iff]
    constructor
    · exact fun h => .obj h.1 fun k v hv => (ih k v hv).mp (h.2 k v hv)
    · exact fun h => ⟨h.node, fun k v hv => (ih k v hv).mpr (h.field hv)⟩
  | _ => exact ⟨fun _ => .leaf rfl rfl, fun _ => rfl⟩

instance {P : JsonObject → Prop} [DecidablePred P] (value : Json) :
    Decidable (EveryObject P value) :=
  decidable_of_iff (everyObject (fun map => decide (P map)) value = true) <| by
    rw [everyObject_iff]
    simp only [decide_eq_true_eq]

/-- A value as `serde_json` holds it: the keys of every object increase. -/
def WellFormed : Json → Prop := EveryObject BTreeMap.Sorted

instance (value : Json) : Decidable (WellFormed value) :=
  inferInstanceAs (Decidable (EveryObject BTreeMap.Sorted value))

end Json
end McpFramework
