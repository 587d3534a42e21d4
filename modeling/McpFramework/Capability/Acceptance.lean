import McpFramework.Core.JsonObject

/-!
# Capability — Acceptance

What a JSON schema accepts, for the keywords `type`, `properties`, `required`,
`const` and `enum`. Any other keyword accepts everything.
-/

namespace McpFramework

open Lib BTreeMap Json

/-- A float, given by its bits, that is a whole number. -/
def isWhole (bits : Nat) : Bool :=
  let exponent := bits / 2 ^ 52 % 2 ^ 11
  bits % 2 ^ 63 == 0 || (1023 ≤ exponent && bits % 2 ^ 52 % 2 ^ (52 - (exponent - 1023)) == 0)

/-- The names `type` has for a value. -/
def typeNames : Json → List String
  | .null => ["null"]
  | .bool _ => ["boolean"]
  | .num (.float bits) => if isWhole bits then ["number", "integer"] else ["number"]
  | .num _ => ["number", "integer"]
  | .str _ => ["string"]
  | .arr _ => ["array"]
  | .obj _ => ["object"]

def acceptsType : Json → Json → Bool
  | .str name, x => (typeNames x).contains name
  | .arr names, x => (names.filterMap Json.asStr).any fun name => (typeNames x).contains name
  | _, _ => true

def acceptsRequired : Json → Json → Bool
  | .arr names, .obj members =>
    (names.filterMap Json.asStr).all fun name => containsKey members name
  | _, _ => true

def acceptsEnum : Json → Json → Bool
  | .arr values, x => values.any fun value => valueEq value x
  | _, _ => true

/-- The keywords without subschemas. -/
def acceptsPlain (keyword : String) (v x : Json) : Bool :=
  if keyword = "type" then acceptsType v x
  else if keyword = "required" then acceptsRequired v x
  else if keyword = "const" then valueEq v x
  else if keyword = "enum" then acceptsEnum v x
  else true

mutual

/-- Does a schema accept `x`? -/
def accepts : Json → Json → Bool
  | .bool b, _ => b
  | .obj map, x => acceptsFields map x
  | _, _ => true

def acceptsFields : List (String × Json) → Json → Bool
  | [], _ => true
  | (keyword, v) :: rest, x =>
    (if keyword = "properties" then
      match v with
      | .obj props => acceptsProps props x
      | _ => true
    else acceptsPlain keyword v x) && acceptsFields rest x

def acceptsProps : List (String × Json) → Json → Bool
  | [], _ => true
  | (name, schema) :: rest, x => (x.get name).all (accepts schema) && acceptsProps rest x

end

/-- Each declared property that `x` has is accepted by its schema. -/
def acceptsProperties (props : JsonObject) (x : Json) : Prop :=
  ∀ name schema, (name, schema) ∈ props → ∀ value, x.get name = some value →
    accepts schema value = true

theorem acceptsProps_iff (props : JsonObject) (x : Json) :
    acceptsProps props x = true ↔ acceptsProperties props x := by
  induction props with
  | nil => simp [acceptsProps, acceptsProperties]
  | cons e props ih =>
    obtain ⟨name, schema⟩ := e
    rw [acceptsProps, Bool.and_eq_true, ih, Option.all_eq_true]
    constructor
    · rintro ⟨hhead, htail⟩ name' schema' h
      rcases List.mem_cons.mp h with he | h
      · cases he
        exact hhead
      · exact htail name' schema' h
    · intro h
      exact ⟨h name schema List.mem_cons_self,
        fun name' schema' h' => h name' schema' (List.mem_cons_of_mem _ h')⟩

/-- What one field of a schema asks of `x`. -/
def acceptsKeyword (keyword : String) (v x : Json) : Prop :=
  (keyword ≠ "properties" → acceptsPlain keyword v x = true) ∧
    (keyword = "properties" → ∀ props, v = .obj props → acceptsProperties props x)

theorem accepts_obj_iff (map : JsonObject) (x : Json) :
    accepts (.obj map) x = true ↔ ∀ k v, (k, v) ∈ map → acceptsKeyword k v x := by
  have hfields : ∀ fields : JsonObject,
      acceptsFields fields x = true ↔ ∀ k v, (k, v) ∈ fields → acceptsKeyword k v x := by
    intro fields
    induction fields with
    | nil => simp [acceptsFields]
    | cons e fields ih =>
      obtain ⟨k, v⟩ := e
      have hhead : acceptsFields ((k, v) :: fields) x = true ↔
          acceptsKeyword k v x ∧ acceptsFields fields x = true := by
        unfold acceptsKeyword
        by_cases hk : k = "properties"
        · subst hk
          cases v with
          | obj props => simp [acceptsFields, ← acceptsProps_iff]
          | _ => simp [acceptsFields]
        · cases v <;> simp [acceptsFields, hk]
      rw [hhead, ih]
      constructor
      · rintro ⟨hkeyword, htail⟩ k' v' h
        rcases List.mem_cons.mp h with he | h
        · cases he
          exact hkeyword
        · exact htail k' v' h
      · intro h
        exact ⟨h k v List.mem_cons_self, fun k' v' h' => h k' v' (List.mem_cons_of_mem _ h')⟩
  exact hfields map

/-- Equal but for their descriptions. -/
def SameButDescription (a b : JsonObject) : Prop :=
  remove a "description" = remove b "description"

theorem accepts_remove_description (map : JsonObject) (x : Json) :
    accepts (.obj (remove map "description")) x = true ↔ accepts (.obj map) x = true := by
  rw [accepts_obj_iff, accepts_obj_iff]
  constructor
  · intro h k v hv
    by_cases hk : k = "description"
    · subst hk
      exact ⟨fun _ => rfl, fun hk => absurd hk (by decide)⟩
    · exact h k v ((mem_remove_iff map _ _).mpr ⟨hv, hk⟩)
  · exact fun h k v hv => h k v ((mem_remove_iff map _ _).mp hv).1

/-- A description decides nothing. -/
theorem accepts_congr {a b : JsonObject} (h : SameButDescription a b) (x : Json) :
    accepts (.obj a) x = true ↔ accepts (.obj b) x = true := by
  rw [← accepts_remove_description a, h, accepts_remove_description]

end McpFramework
