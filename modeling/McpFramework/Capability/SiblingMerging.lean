import McpFramework.Capability.SchemaNodes

/-!
# Capability — SiblingMerging

The siblings of a reference over the definition it stands for: what a merged
node holds, and that merging is associative.
-/

namespace McpFramework.Sanitize

open Lib BTreeMap Json

/-! ## Merging siblings -/

theorem siblingValue_none (k : String) (v : Json) : siblingValue k none v = v := by
  unfold siblingValue
  rfl

theorem siblingValue_other {k : String} (hprops : k ≠ "properties") (hreq : k ≠ "required")
    (old : Option Json) (v : Json) : siblingValue k old v = v := by
  unfold siblingValue
  split
  · exact if_neg hprops
  · exact if_neg hreq
  · rfl

theorem get_mergeSiblings (inlined : JsonObject) {map : JsonObject} (h : Sorted map) (k : String) :
    get (mergeSiblings inlined map) k =
      if k = "$ref" then get inlined k
      else ((get map k).map (siblingValue k (get inlined k))).or (get inlined k) := by
  unfold mergeSiblings
  induction map generalizing inlined with
  | nil => simp
  | cons e map ih =>
    obtain ⟨hhead, htail⟩ := List.pairwise_cons.mp h
    have hlater : get map e.1 = none := by
      rw [get_eq_none_iff]
      intro hin
      obtain ⟨e', he', hk⟩ := List.mem_map.mp hin
      exact (hhead e' he').ne hk.symm
    rw [List.foldl_cons, ih _ htail, get_cons]
    by_cases href : k = "$ref"
    · rw [if_pos href, if_pos href]
      split_ifs with he
      · rfl
      · exact get_insert_of_ne _ _ fun h => he (h.symm.trans href)
    · rw [if_neg href, if_neg href]
      by_cases hk : e.1 = k
      · subst hk
        rw [if_neg href, if_pos rfl, hlater, get_insert_self]
        rfl
      · rw [if_neg hk]
        split_ifs
        · rfl
        · rw [get_insert_of_ne _ _ fun h => hk h.symm]

/-- The maps under `properties` are ordered as well. -/
def SortedProperties (map : JsonObject) : Prop :=
  ∀ props, get map "properties" = some (.obj props) → Sorted props

theorem sortedProperties_of_wellFormed {map : JsonObject} (h : WellFormed (.obj map)) :
    SortedProperties map :=
  fun _ hprops => (h.field (mem_of_get hprops)).node

/-- The fields of a merged node: those of the definition, and what the siblings
make of them. -/
theorem mem_mergeSiblings {inlined map : JsonObject} (hinlined : Sorted inlined)
    (hmap : Sorted map) {k : String} {v : Json} (h : (k, v) ∈ mergeSiblings inlined map) :
    (k, v) ∈ inlined ∨
      ∃ w, (k, w) ∈ map ∧ k ≠ "$ref" ∧ v = siblingValue k (get inlined k) w := by
  have hget := (sorted_mergeSiblings hinlined map).get_of_mem h
  rw [get_mergeSiblings inlined hmap] at hget
  split_ifs at hget with href
  · exact Or.inl (mem_of_get hget)
  · cases hw : get map k with
    | none =>
      rw [hw] at hget
      exact Or.inl (mem_of_get hget)
    | some w =>
      rw [hw] at hget
      cases hget
      exact Or.inr ⟨w, mem_of_get hw, href, rfl⟩

/-- A node whose `properties` and `required` are what the keywords ask for: a
map, and a list of names. -/
structure Mergeable (map : JsonObject) : Prop where
  properties : ∀ v, get map "properties" = some v → ∃ props, v = .obj props
  required : ∀ v, get map "required" = some v → ∃ names, v = .arr names ∧
    ∀ n ∈ names, ∃ s, n = .str s

/-- The properties are schemas, also one that is called `$ref`. -/
def NamesSchemas (map : JsonObject) : Prop :=
  ∀ props s, get map "properties" = some (.obj props) → get props "$ref" ≠ some (.str s)

theorem mergeable_mergeSiblings {inlined map : JsonObject} (hsorted : Sorted map)
    (hinlined : Mergeable inlined) (hmap : Mergeable map) :
    Mergeable (mergeSiblings inlined map) := by
  constructor
  · intro v hv
    rw [get_mergeSiblings inlined hsorted, if_neg (by decide)] at hv
    cases hq : get map "properties" with
    | none =>
      rw [hq] at hv
      exact hinlined.properties v hv
    | some w =>
      obtain ⟨q, rfl⟩ := hmap.properties w hq
      rw [hq] at hv
      cases hp : get inlined "properties" with
      | none =>
        rw [hp] at hv
        cases hv
        exact ⟨q, siblingValue_none _ _⟩
      | some w' =>
        obtain ⟨p, rfl⟩ := hinlined.properties w' hp
        rw [hp] at hv
        cases hv
        exact ⟨extend p q, rfl⟩
  · intro v hv
    rw [get_mergeSiblings inlined hsorted, if_neg (by decide)] at hv
    cases hq : get map "required" with
    | none =>
      rw [hq] at hv
      exact hinlined.required v hv
    | some w =>
      obtain ⟨q, rfl, hnamesq⟩ := hmap.required w hq
      rw [hq] at hv
      cases hp : get inlined "required" with
      | none =>
        rw [hp] at hv
        cases hv
        exact ⟨q, siblingValue_none _ _, hnamesq⟩
      | some w' =>
        obtain ⟨p, rfl, hnamesp⟩ := hinlined.required w' hp
        rw [hp] at hv
        cases hv
        refine ⟨unionItems p q, rfl, fun n hn => ?_⟩
        rcases mem_unionItems hn with hn | hn
        · exact hnamesp n hn
        · exact hnamesq n hn

theorem unreferenced_extend {p q : JsonObject} (hsorted : Sorted q)
    (hp : ∀ s, get p "$ref" ≠ some (.str s)) (hq : ∀ s, get q "$ref" ≠ some (.str s)) :
    ∀ s, get (extend p q) "$ref" ≠ some (.str s) := by
  intro s
  rw [get_extend p hsorted]
  cases hget : get q "$ref" with
  | none => exact hp s
  | some r =>
    rw [Option.some_or, ← hget]
    exact hq s

theorem namesSchemas_mergeSiblings {inlined map : JsonObject} (hsorted : Sorted map)
    (hprops : SortedProperties map) (hshape : Mergeable map) (hinlined : NamesSchemas inlined)
    (hmap : NamesSchemas map) : NamesSchemas (mergeSiblings inlined map) := by
  intro props s hv
  rw [get_mergeSiblings inlined hsorted, if_neg (by decide)] at hv
  cases hq : get map "properties" with
  | none =>
    rw [hq] at hv
    exact hinlined props s hv
  | some w =>
    obtain ⟨q, rfl⟩ := hshape.properties w hq
    rw [hq] at hv
    cases hp : get inlined "properties" with
    | none =>
      rw [hp] at hv
      cases hv
      exact hmap props s hq
    | some w' =>
      rw [hp] at hv
      cases w' with
      | obj p =>
        cases hv
        exact unreferenced_extend (hprops q hq) (fun s => hinlined p s hp) (fun s => hmap q s hq) s
      | _ =>
        cases hv
        exact hmap props s hq

/-! ### Merging is associative -/

/-- Among strings, being in the list is what the union asks. -/
theorem any_valueEq_str (items : List Json) (s : String) :
    (items.any fun i => valueEq i (.str s)) = true ↔ Json.str s ∈ items := by
  rw [List.any_eq_true]
  constructor
  · rintro ⟨i, hi, heq⟩
    cases i with
    | str s' =>
      rw [valueEq_str, beq_iff_eq] at heq
      exact heq ▸ hi
    | _ => cases heq
  · intro h
    exact ⟨_, h, by rw [valueEq_str, beq_self_eq_true]⟩

theorem unionItems_append_of_mem {items siblings : List Json} {s : String}
    (h : Json.str s ∈ unionItems items siblings) :
    unionItems items (siblings ++ [.str s]) = unionItems items siblings := by
  unfold unionItems at h ⊢
  rw [List.foldl_append]
  exact if_pos ((any_valueEq_str _ s).mpr h)

theorem unionItems_append_of_notMem {items siblings : List Json} {s : String}
    (h : Json.str s ∉ unionItems items siblings) :
    unionItems items (siblings ++ [.str s]) = unionItems items siblings ++ [.str s] := by
  unfold unionItems at h ⊢
  rw [List.foldl_append]
  exact if_neg fun hany => h ((any_valueEq_str _ s).mp hany)

theorem mem_unionItems_of_mem {items siblings : List Json} (hstr : ∀ n ∈ siblings, ∃ s, n = .str s)
    {v : Json} (h : v ∈ items ∨ v ∈ siblings) : v ∈ unionItems items siblings := by
  induction siblings using List.reverseRecOn with
  | nil =>
    rcases h with h | h
    · exact h
    · cases h
  | append_singleton siblings n ih =>
    obtain ⟨s, rfl⟩ := hstr n (by simp)
    have hrest := ih fun n hn => hstr n (List.mem_append_left _ hn)
    by_cases hin : Json.str s ∈ unionItems items siblings
    · rw [unionItems_append_of_mem hin]
      rcases h with h | h
      · exact hrest (Or.inl h)
      · rcases List.mem_append.mp h with h | h
        · exact hrest (Or.inr h)
        · exact List.mem_singleton.mp h ▸ hin
    · rw [unionItems_append_of_notMem hin, List.mem_append]
      rcases h with h | h
      · exact Or.inl (hrest (Or.inl h))
      · rcases List.mem_append.mp h with h | h
        · exact Or.inl (hrest (Or.inr h))
        · exact Or.inr h

theorem unionItems_assoc (d : List Json) {a b : List Json} (ha : ∀ n ∈ a, ∃ s, n = .str s)
    (hb : ∀ n ∈ b, ∃ s, n = .str s) :
    unionItems (unionItems d a) b = unionItems d (unionItems a b) := by
  induction b using List.reverseRecOn with
  | nil => rfl
  | append_singleton b n ih =>
    obtain ⟨s, rfl⟩ := hb n (by simp)
    have hb' : ∀ n ∈ b, ∃ s, n = .str s := fun n hn => hb n (List.mem_append_left _ hn)
    have hrest := ih hb'
    have hab : ∀ n ∈ unionItems a b, ∃ s, n = .str s := by
      intro n hn
      rcases mem_unionItems hn with hn | hn
      · exact ha n hn
      · exact hb' n hn
    by_cases hin : Json.str s ∈ unionItems d (unionItems a b)
    · rw [unionItems_append_of_mem (hrest ▸ hin), hrest]
      by_cases hinab : Json.str s ∈ unionItems a b
      · rw [unionItems_append_of_mem hinab]
      · rw [unionItems_append_of_notMem hinab, unionItems_append_of_mem hin]
    · have hinab : Json.str s ∉ unionItems a b :=
        fun h => hin (mem_unionItems_of_mem hab (Or.inr h))
      rw [unionItems_append_of_notMem (hrest ▸ hin), hrest, unionItems_append_of_notMem hinab,
        unionItems_append_of_notMem hin]

theorem extend_assoc {d a b : JsonObject} (hd : Sorted d) (ha : Sorted a) (hb : Sorted b) :
    extend (extend d a) b = extend d (extend a b) := by
  apply Sorted.ext ((hd.extend a).extend b) (hd.extend (extend a b))
  intro k
  rw [get_extend _ hb, get_extend _ ha, get_extend _ (ha.extend b), get_extend _ hb,
    Option.or_assoc]

theorem siblingValue_assoc {d a b : JsonObject} (ha : Mergeable a) (hb : Mergeable b)
    (hds : SortedProperties d) (has : SortedProperties a) (hbs : SortedProperties b)
    {k : String} {va vb : Json} (hva : get a k = some va) (hvb : get b k = some vb) :
    siblingValue k (some (siblingValue k (get d k) va)) vb =
      siblingValue k (get d k) (siblingValue k (some va) vb) := by
  by_cases hprops : k = "properties"
  · subst hprops
    obtain ⟨pa, rfl⟩ := ha.properties va hva
    obtain ⟨pb, rfl⟩ := hb.properties vb hvb
    cases hd : get d "properties" with
    | none => rfl
    | some vd =>
      cases vd with
      | obj pd =>
        have hassoc := extend_assoc (hds pd hd) (has pa hva) (hbs pb hvb)
        simp only [siblingValue, if_true, hassoc]
      | _ => rfl
  · by_cases hreq : k = "required"
    · subst hreq
      obtain ⟨na, rfl, hna⟩ := ha.required va hva
      obtain ⟨nb, rfl, hnb⟩ := hb.required vb hvb
      cases get d "required" with
      | none => rfl
      | some vd =>
        cases vd with
        | arr nd => simp only [siblingValue, if_true, unionItems_assoc nd hna hnb]
        | _ => rfl
    · simp only [siblingValue_other hprops hreq]

/-- Siblings over siblings over a definition. -/
theorem mergeSiblings_assoc {d a b : JsonObject} (hd : Sorted d) (ha : Sorted a) (hb : Sorted b)
    (hma : Mergeable a) (hmb : Mergeable b) (hds : SortedProperties d) (has : SortedProperties a)
    (hbs : SortedProperties b) :
    mergeSiblings (mergeSiblings d a) b = mergeSiblings d (mergeSiblings a b) := by
  apply Sorted.ext (sorted_mergeSiblings (sorted_mergeSiblings hd a) b) (sorted_mergeSiblings hd _)
  intro k
  rw [get_mergeSiblings _ hb, get_mergeSiblings _ ha,
    get_mergeSiblings _ (sorted_mergeSiblings ha b), get_mergeSiblings _ hb]
  split_ifs with href
  · rfl
  · cases hvb : get b k with
    | none => rfl
    | some vb =>
      cases hva : get a k with
      | none =>
        simp only [Option.map_none, Option.none_or, Option.map_some, Option.some_or,
          siblingValue_none]
      | some va =>
        simp only [Option.map_some, Option.some_or, siblingValue_assoc hma hmb hds has hbs hva hvb]

/-! ### Merging under a pass -/

section Pass

-- A pass that leaves strings alone and enters arrays and maps of schemas.
variable {pass : Json → Json} (hstr : ∀ s, pass (.str s) = .str s)
  (harr : ∀ items, pass (.arr items) = .arr (items.map pass))
  (hobj : ∀ props : JsonObject, (∀ s, get props "$ref" ≠ some (.str s)) →
    pass (.obj props) = .obj (mapValues (fun _ v => pass v) props))

include hstr harr in
theorem pass_names {names : List Json} (h : ∀ n ∈ names, ∃ s, n = .str s) :
    pass (.arr names) = .arr names := by
  rw [harr]
  congr 1
  calc names.map pass = names.map id := by
        apply List.map_congr_left
        intro n hn
        obtain ⟨s, rfl⟩ := h n hn
        exact hstr s
    _ = names := List.map_id names

include hstr harr hobj in
theorem pass_siblingValue {inlined map : JsonObject} (hinlined : Mergeable inlined)
    (hmap : Mergeable map) (hschemas : NamesSchemas inlined) (hschemas' : NamesSchemas map)
    (hsorted : SortedProperties map) {k : String} {v : Json} (hv : get map k = some v) :
    pass (siblingValue k (get inlined k) v) =
      siblingValue k ((get inlined k).map pass) (pass v) := by
  cases hold : get inlined k with
  | none => simp only [Option.map_none, siblingValue_none]
  | some old =>
    rw [Option.map_some]
    by_cases hprops : k = "properties"
    · subst hprops
      obtain ⟨p, rfl⟩ := hinlined.properties old hold
      obtain ⟨q, rfl⟩ := hmap.properties v hv
      have hp : ∀ s, get p "$ref" ≠ some (.str s) := fun s => hschemas p s hold
      have hq : ∀ s, get q "$ref" ≠ some (.str s) := fun s => hschemas' q s hv
      rw [hobj p hp, hobj q hq]
      simp only [siblingValue, if_true]
      rw [hobj _ (unreferenced_extend (hsorted q hv) hp hq), mapValues_extend]
    · by_cases hreq : k = "required"
      · subst hreq
        obtain ⟨p, rfl, hp⟩ := hinlined.required old hold
        obtain ⟨q, rfl, hq⟩ := hmap.required v hv
        rw [pass_names hstr harr hp, pass_names hstr harr hq]
        simp only [siblingValue, if_true]
        apply pass_names hstr harr
        intro n hn
        rcases mem_unionItems hn with hn | hn
        · exact hp n hn
        · exact hq n hn
      · rw [siblingValue_other hprops hreq, siblingValue_other hprops hreq]

include hstr harr hobj in
/-- It makes no difference whether siblings are merged before the pass or after it. -/
theorem mapValues_mergeSiblings {inlined map : JsonObject} (hs : Sorted inlined) (hs' : Sorted map)
    (hinlined : Mergeable inlined) (hmap : Mergeable map) (hschemas : NamesSchemas inlined)
    (hschemas' : NamesSchemas map) (hsorted : SortedProperties map) :
    mapValues (fun _ v => pass v) (mergeSiblings inlined map) =
      mergeSiblings (mapValues (fun _ v => pass v) inlined)
        (mapValues (fun _ v => pass v) map) := by
  apply Sorted.ext ((sorted_mergeSiblings hs map).mapValues _)
    (sorted_mergeSiblings (hs.mapValues _) _)
  intro k
  rw [get_mapValues, get_mergeSiblings _ hs', get_mergeSiblings _ (hs'.mapValues _), get_mapValues,
    get_mapValues]
  split_ifs with href
  · rfl
  · cases hv : get map k with
    | none => rfl
    | some v =>
      simp only [Option.map_some, Option.some_or]
      rw [pass_siblingValue hstr harr hobj hinlined hmap hschemas hschemas' hsorted hv]

include hstr harr hobj in
theorem mergeable_mapValues {map : JsonObject} (h : Mergeable map) (hschemas : NamesSchemas map) :
    Mergeable (mapValues (fun _ v => pass v) map) := by
  constructor
  · intro w hw
    rw [get_mapValues] at hw
    obtain ⟨v, hv, rfl⟩ := Option.map_eq_some_iff.mp hw
    obtain ⟨props, rfl⟩ := h.properties v hv
    exact ⟨_, hobj props fun s => hschemas props s hv⟩
  · intro w hw
    rw [get_mapValues] at hw
    obtain ⟨v, hv, rfl⟩ := Option.map_eq_some_iff.mp hw
    obtain ⟨names, rfl, hnames⟩ := h.required v hv
    exact ⟨names, pass_names hstr harr hnames, hnames⟩

end Pass

end McpFramework.Sanitize
