import McpFramework.Core.Json
import McpFramework.Lib.HashMap
import McpFramework.Lib.Transition

/-!
# Capability — Registry

The registry of dynamic tools, prompts and resources (`capability/registry.rs`)
and its content version: each mutation changes one map under that map's lock,
then hashes the keys of all three, read one map after the other, and stores the
result. Tasks interleave between these steps.

`DefaultHasher` is a parameter: a function of the bytes that are written to it.
Handlers, peers and the description audit are not part of the version.
-/

namespace McpFramework

open Lib

/-! ## Items -/

/-- A tool. `rest` stands for the fields the framework only passes on. -/
structure Tool where
  name : String
  inputSchema : Json
  outputSchema : Option Json
  rest : Json

structure Prompt where
  name : String
  rest : Json

structure Resource where
  uri : String
  rest : Json

structure CapabilityRegistry where
  tools : HashMap String Tool
  prompts : HashMap String Prompt
  resources : HashMap String Resource
  version : Nat

namespace CapabilityRegistry

variable (hasher : List UInt8 → Nat)

/-! ## Versioning -/

/-- The keys of a map in the order they are hashed in. -/
def sortedKeys {V : Type} (map : HashMap String V) : List String :=
  map.keys.mergeSort fun a b => decide (a ≤ b)

/-- What hashing strings writes: their UTF-8 bytes, each with an end mark. -/
def hashSortedKeys (keys : List String) : List UInt8 :=
  keys.flatMap fun key => key.toUTF8.toList ++ [0xff]

def hashKeys (tools prompts resources : List String) : Nat :=
  hasher (hashSortedKeys tools ++ hashSortedKeys prompts ++ hashSortedKeys resources)

/-- The hash of what is registered. -/
def contentHash (r : CapabilityRegistry) : Nat :=
  hashKeys hasher (sortedKeys r.tools) (sortedKeys r.prompts) (sortedKeys r.resources)

def new : CapabilityRegistry :=
  { tools := HashMap.empty, prompts := HashMap.empty, resources := HashMap.empty
    version := hasher [] }

@[simp] theorem sortedKeys_empty (V : Type) :
    sortedKeys (HashMap.empty : HashMap String V) = [] := by
  simp [sortedKeys, HashMap.empty]

theorem contentHash_new : (new hasher).contentHash hasher = (new hasher).version := by
  simp [contentHash, new, hashKeys, hashSortedKeys]

/-- Whether the session is notified, and the versions the sessions have seen. -/
def notifyIfChanged (r : CapabilityRegistry) (sessionVersions : HashMap String Nat)
    (sessionId : String) : HashMap String Nat × Bool :=
  let stale :=
    match sessionVersions.get? sessionId with
    | some last => decide (last ≠ r.version)
    | none => true
  (if stale then sessionVersions.insert sessionId r.version else sessionVersions, stale)

/-! ## Mutations -/

inductive Mutation where
  | addTool (tool : Tool)
  | removeTool (name : String)
  | addPrompt (prompt : Prompt)
  | removePrompt (name : String)
  | addResource (resource : Resource)
  | removeResource (uri : String)

/-- The map after a mutation, and whether the version is recomputed: removing
what is not there changes nothing. -/
def mutate (r : CapabilityRegistry) : Mutation → CapabilityRegistry × Bool
  | .addTool tool => ({ r with tools := r.tools.insert tool.name tool }, true)
  | .removeTool name => ({ r with tools := r.tools.remove name }, r.tools.containsKey name)
  | .addPrompt prompt => ({ r with prompts := r.prompts.insert prompt.name prompt }, true)
  | .removePrompt name =>
    ({ r with prompts := r.prompts.remove name }, r.prompts.containsKey name)
  | .addResource resource =>
    ({ r with resources := r.resources.insert resource.uri resource }, true)
  | .removeResource uri =>
    ({ r with resources := r.resources.remove uri }, r.resources.containsKey uri)

end CapabilityRegistry
end McpFramework
