import McpFramework.Capability.SchemaNodes
import Mathlib.Logic.Relation

/-!
# Capability — ReferenceTermination

The recursion of `resolve_refs_inner`: the calls it makes, that no sequence of
them is infinite, and what they have on the chain. Expanding a reference makes the
value larger, so what falls is the depth that is left, and within one depth the
value.

What comes out holds no reference to a definition, but for a definition that is no
schema but the string of a reference: inlined under a key `$ref`, it reads as one.
-/

namespace McpFramework.Sanitize

open Lib BTreeMap Json Relation

/-! ## Calls -/

/-- `Calls defs c d`: the call on a chain and a value makes this other one. -/
inductive Calls (defs : JsonObject) : List String × Json → List String × Json → Prop where
  | item {chain : List String} {items : List Json} {v : Json} :
      v ∈ items → Calls defs (chain, .arr items) (chain, v)
  | field {chain : List String} {map : JsonObject} {k : String} {v : Json} :
      refTarget defs map = none → (k, v) ∈ map → Calls defs (chain, .obj map) (chain, v)
  | truncated {chain : List String} {map : JsonObject} {defName : String} {definition : Json}
      {k : String} {v : Json} :
      refTarget defs map = some (defName, definition) →
      defName ∈ chain ∨ MAX_REF_DEPTH ≤ chain.length →
      (k, v) ∈ truncateToPermissiveObject map → Calls defs (chain, .obj map) (chain, v)
  | inlined {chain : List String} {map : JsonObject} {defName : String} {definition : Json} :
      refTarget defs map = some (defName, definition) →
      defName ∉ chain → chain.length < MAX_REF_DEPTH →
      Calls defs (chain, .obj map) (chain ++ [defName], inlineReference definition map)

section Calls

variable {defs : JsonObject}

/-- **Termination**: there is no infinite sequence of calls. -/
theorem calls_wellFounded (defs : JsonObject) : WellFounded fun d c => Calls defs c d := by
  refine ⟨fun ⟨chain, value⟩ => ?_⟩
  induction chain, value using resolve_induction with
  | leaf chain value harr hobj =>
    refine ⟨_, fun d hd => ?_⟩
    cases hd with
    | item => cases harr
    | _ => cases hobj
  | arr chain items ih =>
    refine ⟨_, fun d hd => ?_⟩
    cases hd with
    | item hv => exact ih _ hv
  | plain chain map htarget ih =>
    refine ⟨_, fun d hd => ?_⟩
    cases hd with
    | field _ hv => exact ih _ _ hv
    | truncated htarget' => cases htarget.symm.trans htarget'
    | inlined htarget' => cases htarget.symm.trans htarget'
  | truncated chain map defName definition htarget hcut ih =>
    refine ⟨_, fun d hd => ?_⟩
    cases hd with
    | field htarget' => cases htarget.symm.trans htarget'
    | truncated _ _ hv => exact ih _ _ hv
    | inlined htarget' hchain hdepth =>
      cases htarget.symm.trans htarget'
      exact absurd hcut (not_or.mpr ⟨hchain, Nat.not_le_of_lt hdepth⟩)
  | inlined chain map defName definition htarget hchain hdepth ih =>
    refine ⟨_, fun d hd => ?_⟩
    cases hd with
    | field htarget' => cases htarget.symm.trans htarget'
    | truncated htarget' hcut =>
      cases htarget.symm.trans htarget'
      exact absurd hcut (not_or.mpr ⟨hchain, Nat.not_le_of_lt hdepth⟩)
    | inlined htarget' =>
      cases htarget.symm.trans htarget'
      exact ih

/-- The definitions that are being inlined: distinct, and within the depth. -/
structure ChainBounded (defs : JsonObject) (chain : List String) : Prop where
  nodup : chain.Nodup
  depth : chain.length ≤ MAX_REF_DEPTH
  named : ∀ name ∈ chain, name ∈ keys defs

theorem ChainBounded.calls {c d : List String × Json} (h : ChainBounded defs c.1)
    (hcall : Calls defs c d) : ChainBounded defs d.1 := by
  cases hcall with
  | item => exact h
  | field => exact h
  | truncated => exact h
  | inlined htarget hchain hdepth =>
    refine ⟨?_, ?_, fun name hname => ?_⟩
    · exact List.nodup_append.mpr ⟨h.nodup, List.nodup_singleton _, fun a ha b hb heq =>
        hchain (List.mem_singleton.mp hb ▸ heq ▸ ha)⟩
    · rw [List.length_append, List.length_singleton]
      exact hdepth
    · rcases List.mem_append.mp hname with hname | hname
      · exact h.named name hname
      · rw [List.mem_singleton.mp hname]
        exact mem_keys_of_get (refTarget_some htarget).2

/-- Every call that `resolve_refs` leads to. -/
theorem chainBounded_of_reach {value : Json} {d : List String × Json}
    (h : ReflTransGen (Calls defs) ([], value) d) : ChainBounded defs d.1 := by
  induction h with
  | refl => exact ⟨List.nodup_nil, Nat.zero_le _, nofun⟩
  | tail _ hcall ih => exact ih.calls hcall

end Calls

/-! ## What comes out -/

/-- No string `$ref` at this object names a definition. -/
def Resolved (defs map : JsonObject) : Prop :=
  ∀ name ∈ keys defs, get map "$ref" ≠ some (.str ("#/$defs/" ++ name))

/-- Where a string `$ref` at this object names a definition, the string is itself a
definition. -/
def OnlyDefined (defs map : JsonObject) : Prop :=
  ∀ name ∈ keys defs, get map "$ref" = some (.str ("#/$defs/" ++ name)) →
    ∃ s, get defs s = some (.str ("#/$defs/" ++ name))

/-- No definition is the string of a reference to a definition. -/
def NoStringReference (defs : JsonObject) : Prop :=
  ∀ s, ∀ name ∈ keys defs, get defs s ≠ some (.str ("#/$defs/" ++ name))

section Complete

variable {defs : JsonObject}

/-- A string in the result was there before, or is a definition. -/
theorem str_of_resolveRefsInner (chain : List String) (value : Json) {t : String}
    (h : resolveRefsInner defs chain value = .str t) :
    value = .str t ∨ ∃ s, get defs s = some (.str t) := by
  induction chain, value using resolve_induction with
  | leaf chain value harr hobj =>
    rw [resolveRefsInner_leaf harr hobj] at h
    exact .inl h
  | arr chain items ih =>
    rw [resolveRefsInner_arr] at h
    cases h
  | plain chain map htarget ih =>
    rw [resolveRefsInner_plain htarget] at h
    cases h
  | truncated chain map defName definition htarget hcut ih =>
    rw [resolveRefsInner_truncated htarget hcut] at h
    cases h
  | inlined chain map defName definition htarget hchain hdepth ih =>
    rw [resolveRefsInner_inlined htarget hchain hdepth] at h
    rcases ih h with hstr | hdef
    · cases definition with
      | str s =>
        cases hstr
        exact .inr ⟨defName, (refTarget_some htarget).2⟩
      | _ => cases hstr
    · exact .inr hdef

theorem onlyDefined_resolveRefsInner (chain : List String) (value : Json) :
    EveryObject (OnlyDefined defs) (resolveRefsInner defs chain value) := by
  have htrue : EveryObject (fun _ => True) value := EveryObject.of_forall (fun _ => trivial) value
  apply everyObject_resolve _ _ _ chain value htrue
  · intro chain map _ htarget name hname hget
    rw [get_mapValues] at hget
    obtain ⟨v, hv, hresolved⟩ := Option.map_eq_some_iff.mp hget
    rcases str_of_resolveRefsInner chain v hresolved with rfl | hdef
    · -- The reference was there before, and would have been followed.
      obtain ⟨d, hd⟩ := exists_get hname
      rw [refTarget_of_get hv hd] at htarget
      cases htarget
    · exact hdef
  · intro chain map _ name _ hget
    have habsent : get (truncateToPermissiveObject map) "$ref" = none := by
      unfold truncateToPermissiveObject
      dsimp only
      split
      · exact get_remove_self map "$ref"
      · rw [get_insert_of_ne _ _ (by decide), get_remove_self]
    rw [get_mapValues, habsent] at hget
    cases hget
  · exact fun _ _ _ _ _ => EveryObject.of_forall (fun _ => trivial) _

theorem OnlyDefined.resolved {map : JsonObject} (h : OnlyDefined defs map)
    (hdefs : NoStringReference defs) : Resolved defs map := by
  intro name hname hget
  obtain ⟨s, hs⟩ := h name hname hget
  exact hdefs s name hname hs

/-- A reference to a string under a key `$ref`. -/
def referenceToString (s : String) : Json :=
  .obj [("$ref", .obj [("$ref", .str ("#/$defs/" ++ s))])]

/-- The string takes the place of the reference to it. -/
theorem resolveRefs_referenceToString {s t : String} (h : get defs s = some (.str t)) :
    resolveRefs defs (referenceToString s) = .obj [("$ref", .str t)] := by
  have hinner : resolveRefsInner defs [] (.obj [("$ref", .str ("#/$defs/" ++ s))]) = .str t := by
    have htarget : refTarget defs [("$ref", .str ("#/$defs/" ++ s))] = some (s, .str t) :=
      refTarget_of_get rfl h
    rw [resolveRefsInner_inlined htarget (List.not_mem_nil) (by decide)]
    exact resolveRefsInner_str defs _ t
  have hplain : refTarget defs [("$ref", .obj [("$ref", .str ("#/$defs/" ++ s))])] = none := rfl
  rw [referenceToString, resolveRefs, resolveRefsInner_plain hplain, mapValues_cons, mapValues_nil,
    hinner]

end Complete

/-- **Reference resolution** terminates, on chains of distinct definitions within
the depth. Of any value and definitions it leaves no reference to a definition but
one that is itself a definition, so none of any value exactly when no definition
is the string of a reference. -/
theorem resolution_terminates_and_completes (defs : JsonObject) :
    (WellFounded fun d c => Calls defs c d) ∧
    (∀ value chain v, ReflTransGen (Calls defs) ([], value) (chain, v) →
      chain.Nodup ∧ chain.length ≤ MAX_REF_DEPTH) ∧
    (∀ chain value, EveryObject (OnlyDefined defs) (resolveRefsInner defs chain value)) ∧
    ((∀ value, EveryObject (Resolved defs) (resolveRefs defs value)) ↔ NoStringReference defs) := by
  refine ⟨calls_wellFounded defs, fun value chain v h => ?_, onlyDefined_resolveRefsInner, ?_⟩
  · have hbounded := chainBounded_of_reach h
    exact ⟨hbounded.nodup, hbounded.depth⟩
  · constructor
    · intro h s name hname hs
      have hevery := h (referenceToString s)
      rw [resolveRefs_referenceToString hs] at hevery
      exact hevery.node name hname rfl
    · intro hdefs value
      exact (onlyDefined_resolveRefsInner [] value).imp fun map h => h.resolved hdefs

/-- A definition that is the string of a reference, inlined under `$ref`. -/
theorem string_definition_becomes_reference :
    ¬ ∀ (defs : JsonObject) (value : Json), EveryObject (Resolved defs) (resolveRefs defs value) := by
  intro h
  have hevery := h [("n", .obj []), ("s", .str "#/$defs/n")] (referenceToString "s")
  rw [resolveRefs_referenceToString rfl] at hevery
  exact hevery.node "n" (by decide) rfl

end McpFramework.Sanitize
