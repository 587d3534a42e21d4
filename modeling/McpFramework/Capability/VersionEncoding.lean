import Mathlib.Data.List.Sort
import McpFramework.Capability.Registry
import McpFramework.Lib.Terminated

/-!
# Capability — VersionEncoding

What the version of a registry is a hash of. Each name ends in a byte that no
name contains, so the names can be read back from the bytes; but nothing marks
where the tools end and the prompts begin. Two states that differ only in the
kind of a name are told apart by its place in the order, or not at all.
-/

namespace McpFramework.CapabilityRegistry

open Lib

variable {V W : Type}

/-- The bytes that `recompute_version` feeds to its hasher. -/
def hashedBytes (r : CapabilityRegistry) : List UInt8 :=
  hashSortedKeys (sortedKeys r.tools) ++ hashSortedKeys (sortedKeys r.prompts) ++
    hashSortedKeys (sortedKeys r.resources)

theorem contentHash_eq (hasher : List UInt8 → Nat) (r : CapabilityRegistry) :
    r.contentHash hasher = hasher r.hashedBytes := rfl

/-- The names of all kinds in the order they are hashed in. -/
def hashedNames (r : CapabilityRegistry) : List String :=
  sortedKeys r.tools ++ sortedKeys r.prompts ++ sortedKeys r.resources

/-- The same tools, prompts and resources are registered, by name. -/
structure SameNames (r r' : CapabilityRegistry) : Prop where
  tools : ∀ name, r.tools.containsKey name = r'.tools.containsKey name
  prompts : ∀ name, r.prompts.containsKey name = r'.prompts.containsKey name
  resources : ∀ uri, r.resources.containsKey uri = r'.resources.containsKey uri

/-! ## The names of one kind -/

theorem mem_sortedKeys_iff (map : HashMap String V) (name : String) :
    name ∈ sortedKeys map ↔ map.containsKey name = true := by
  rw [sortedKeys, List.mem_mergeSort, HashMap.containsKey_iff]

theorem length_sortedKeys (map : HashMap String V) : (sortedKeys map).length = map.len := by
  rw [sortedKeys, List.length_mergeSort, AList.keys, List.keys, List.length_map]
  rfl

theorem pairwise_sortedKeys (map : HashMap String V) :
    (sortedKeys map).Pairwise fun a b => a ≤ b := by
  have htrans : ∀ a b c : String, decide (a ≤ b) = true → decide (b ≤ c) = true →
      decide (a ≤ c) = true := fun a b c hab hbc =>
    decide_eq_true (String.le_trans (of_decide_eq_true hab) (of_decide_eq_true hbc))
  have htotal : ∀ a b : String, (decide (a ≤ b) || decide (b ≤ a)) = true := fun a b => by
    simpa using String.le_total a b
  have hsorted := List.pairwise_mergeSort htrans htotal map.keys
  exact hsorted.imp of_decide_eq_true

/-- The sorted keys say which names there are, and no more. -/
theorem sortedKeys_eq_iff (map : HashMap String V) (map' : HashMap String W) :
    sortedKeys map = sortedKeys map' ↔
      ∀ name, map.containsKey name = map'.containsKey name := by
  constructor
  · intro heq name
    rw [Bool.eq_iff_iff, ← mem_sortedKeys_iff, ← mem_sortedKeys_iff, heq]
  · intro hsame
    have hkeys : map.keys.Perm map'.keys := by
      rw [List.perm_ext_iff_of_nodup map.keys_nodup map'.keys_nodup]
      intro name
      have hname := Bool.eq_iff_iff.mp (hsame name)
      rw [HashMap.containsKey_iff, HashMap.containsKey_iff] at hname
      exact hname
    have hperm : (sortedKeys map).Perm (sortedKeys map') :=
      (List.mergeSort_perm ..).trans (hkeys.trans (List.mergeSort_perm ..).symm)
    exact hperm.eq_of_pairwise (fun _ _ _ _ => String.le_antisymm) (pairwise_sortedKeys map)
      (pairwise_sortedKeys map')

/-! ## The bytes -/

theorem hashSortedKeys_eq (keys : List String) :
    hashSortedKeys keys = terminate 0xff (keys.map fun key => key.toUTF8.toList) := by
  rw [hashSortedKeys, terminate, List.flatMap_map]

theorem hashSortedKeys_injective {keys keys' : List String}
    (h : hashSortedKeys keys = hashSortedKeys keys') : keys = keys' := by
  have hplain : ∀ keys : List String, ∀ w ∈ keys.map (fun key => key.toUTF8.toList),
      (0xff : UInt8) ∉ w := by
    intro keys w hw
    obtain ⟨key, -, rfl⟩ := List.mem_map.mp hw
    exact ff_notMem_toUTF8 key
  rw [hashSortedKeys_eq, hashSortedKeys_eq] at h
  have hwords := terminate_injective (hplain keys) (hplain keys') h
  exact List.map_injective_iff.mpr (fun _ _ => toUTF8_toList_injective) hwords

theorem hashedBytes_eq (r : CapabilityRegistry) :
    r.hashedBytes = hashSortedKeys r.hashedNames := by
  simp [hashedBytes, hashedNames, hashSortedKeys]

theorem hashedBytes_eq_iff (r r' : CapabilityRegistry) :
    r.hashedBytes = r'.hashedBytes ↔ r.hashedNames = r'.hashedNames := by
  rw [hashedBytes_eq, hashedBytes_eq]
  constructor
  · exact hashSortedKeys_injective
  · intro h
    rw [h]

/-! ## The states that are told apart -/

variable {r r' : CapabilityRegistry}

theorem sameNames_iff : SameNames r r' ↔ sortedKeys r.tools = sortedKeys r'.tools ∧
    sortedKeys r.prompts = sortedKeys r'.prompts ∧
    sortedKeys r.resources = sortedKeys r'.resources := by
  rw [sortedKeys_eq_iff, sortedKeys_eq_iff, sortedKeys_eq_iff]
  exact ⟨fun h => ⟨h.tools, h.prompts, h.resources⟩, fun h => ⟨h.1, h.2.1, h.2.2⟩⟩

/-- The names in one list, and how many of them are tools and prompts, are the
names of each kind. -/
theorem sameNames_of_hashedNames (hnames : r.hashedNames = r'.hashedNames)
    (htools : r.tools.len = r'.tools.len) (hprompts : r.prompts.len = r'.prompts.len) :
    SameNames r r' := by
  rw [hashedNames, hashedNames, List.append_assoc, List.append_assoc] at hnames
  have hlen : (sortedKeys r.tools).length = (sortedKeys r'.tools).length := by
    rw [length_sortedKeys, length_sortedKeys, htools]
  have hlen' : (sortedKeys r.prompts).length = (sortedKeys r'.prompts).length := by
    rw [length_sortedKeys, length_sortedKeys, hprompts]
  obtain ⟨hsame, hrest⟩ := List.append_inj hnames hlen
  obtain ⟨hsame', hsame''⟩ := List.append_inj hrest hlen'
  exact sameNames_iff.mpr ⟨hsame, hsame', hsame''⟩

theorem SameNames.len (h : SameNames r r') :
    r.tools.len = r'.tools.len ∧ r.prompts.len = r'.prompts.len := by
  obtain ⟨htools, hprompts, -⟩ := sameNames_iff.mp h
  rw [← length_sortedKeys, ← length_sortedKeys, ← length_sortedKeys r.prompts,
    ← length_sortedKeys r'.prompts, htools, hprompts]
  exact ⟨rfl, rfl⟩

/-- **When the version tells two states apart**: equal bytes mean equal names of
each kind unless the two states list the same names in the same order and draw
the lines between the kinds in different places. -/
theorem bytes_tell_names_iff (r r' : CapabilityRegistry) :
    (r.hashedBytes = r'.hashedBytes → SameNames r r') ↔
      (r.hashedNames = r'.hashedNames →
        r.tools.len = r'.tools.len ∧ r.prompts.len = r'.prompts.len) := by
  rw [hashedBytes_eq_iff]
  constructor
  · intro htell hnames
    exact (htell hnames).len
  · intro hcounts hnames
    exact sameNames_of_hashedNames hnames (hcounts hnames).1 (hcounts hnames).2

theorem sortedKeys_single (name : String) (value : V) :
    sortedKeys (HashMap.empty.insert name value) = [name] :=
  List.mergeSort_singleton name

/-- A registry whose only entry is a tool, and one whose only entry is a prompt
of that name. -/
def oneTool : CapabilityRegistry :=
  { tools := HashMap.empty.insert "search" ⟨"search", .obj [], none, .null⟩
    prompts := HashMap.empty, resources := HashMap.empty, version := 0 }

def onePrompt : CapabilityRegistry :=
  { tools := HashMap.empty, prompts := HashMap.empty.insert "search" ⟨"search", .null⟩
    resources := HashMap.empty, version := 0 }

/-- The tool becomes a prompt, and the bytes are the same. -/
theorem moved_name_keeps_bytes :
    ¬ ∀ r r' : CapabilityRegistry, r.hashedBytes = r'.hashedBytes → SameNames r r' := by
  intro h
  have hbytes : oneTool.hashedBytes = onePrompt.hashedBytes := by
    rw [hashedBytes_eq_iff]
    simp [hashedNames, oneTool, onePrompt, sortedKeys_single]
  have hsame := (h oneTool onePrompt hbytes).tools "search"
  exact absurd hsame (by decide)

end McpFramework.CapabilityRegistry
