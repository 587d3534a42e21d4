import Mathlib.Data.Finset.Basic
import Mathlib.Data.List.Dedup
import McpFramework.Core.Time
import McpFramework.Lib.HashMap

/-!
# Persistence — InMemory

The operations of `PersistenceBackend` and the in-memory backend
(`persistence.rs`): one map keyed by (namespace, key). Time-to-live arguments
are ignored by it.
-/

namespace McpFramework

open Lib

/-- Outcome of `touch`. -/
inductive Touch where
  | Armed
  | Missing
  | Unsupported
deriving DecidableEq, Repr

/-- A namespace name. Every one of the framework's is free of `:`, which
separates it from the key in Redis. -/
structure Namespace where
  name : String
  colonFree : ':' ∉ name.toList
deriving DecidableEq

def NS_SESSIONS : Namespace := ⟨"sessions", by decide⟩
def NS_TOKENS : Namespace := ⟨"tokens", by decide⟩
def NS_SESSION_BINDING : Namespace := ⟨"session_binding", by decide⟩

/-- A call of the data operations. A `ttl` is a duration. -/
inductive Op where
  | get (ns : Namespace) (key : String)
  | set (ns : Namespace) (key : String) (value : List UInt8) (ttl : Option Nat)
  | delete (ns : Namespace) (key : String)
  | keys (ns : Namespace)
  | touch (ns : Namespace) (key : String) (ttl : Nat)

/-- What a call returns; the keys of a namespace come in no particular order. -/
inductive Output where
  | value (v : Option (List UInt8))
  | unit
  | keys (ks : Finset String)
  | touch (t : Touch)
  | error
deriving DecidableEq

/-! ## The data operations -/

structure InMemoryBackend where
  data : HashMap (String × String) (List UInt8)

namespace InMemoryBackend

def new : InMemoryBackend := ⟨HashMap.empty⟩

def get (b : InMemoryBackend) (ns key : String) : Option (List UInt8) := b.data.get? (ns, key)

def set (b : InMemoryBackend) (ns key : String) (value : List UInt8) : InMemoryBackend :=
  ⟨b.data.insert (ns, key) value⟩

def touch (b : InMemoryBackend) (ns key : String) : Touch :=
  if b.data.containsKey (ns, key) then .Armed else .Missing

def delete (b : InMemoryBackend) (ns key : String) : InMemoryBackend :=
  ⟨b.data.remove (ns, key)⟩

def keys (b : InMemoryBackend) (ns : String) : List String :=
  ((b.data.entries.map (·.1)).filter fun k => k.1 = ns).map (·.2)

def call (b : InMemoryBackend) : Op → InMemoryBackend × Output
  | .get ns key => (b, .value (b.get ns.name key))
  | .set ns key value _ => (b.set ns.name key value, .unit)
  | .delete ns key => (b.delete ns.name key, .unit)
  | .keys ns => (b, .keys (b.keys ns.name).toFinset)
  | .touch ns key _ => (b, .touch (b.touch ns.name key))

variable {b : InMemoryBackend} {ns key : String}

theorem mem_keys : key ∈ b.keys ns ↔ (b.get ns key).isSome := by
  simp only [keys, List.mem_map, List.mem_filter, decide_eq_true_eq, get]
  constructor
  · rintro ⟨⟨n, k⟩, ⟨⟨⟨⟨n', k'⟩, v⟩, hmem, he⟩, hn⟩, hk⟩
    cases he
    subst hn hk
    rw [(HashMap.mem_entries_iff _ _ v).mp hmem]
    rfl
  · intro h
    obtain ⟨v, hv⟩ := Option.isSome_iff_exists.mp h
    exact ⟨(ns, key), ⟨⟨⟨(ns, key), v⟩, (HashMap.mem_entries_iff _ _ v).mpr hv, rfl⟩, rfl⟩, rfl⟩

theorem get_set (ns' key' : String) (v : List UInt8) :
    (b.set ns key v).get ns' key' = if ns' = ns ∧ key' = key then some v else b.get ns' key' := by
  simp [get, set, HashMap.get?_insert]

theorem get_delete (ns' key' : String) :
    (b.delete ns key).get ns' key' = if ns' = ns ∧ key' = key then none else b.get ns' key' := by
  simp [get, delete, HashMap.get?_remove]

/-- The live keys of a namespace, as a set. -/
def live (b : InMemoryBackend) (ns : Namespace) : Finset String := (b.keys ns.name).toFinset

theorem mem_live {ns : Namespace} {k : String} : k ∈ b.live ns ↔ (b.get ns.name k).isSome := by
  rw [live, List.mem_toFinset, mem_keys]

end InMemoryBackend

end McpFramework
