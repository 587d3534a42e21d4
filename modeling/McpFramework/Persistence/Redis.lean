import McpFramework.Persistence.InMemory

/-!
# Persistence — Redis

The Redis backend (`persistence_redis.rs`) over a model of the server: one flat
key space of typed values, and the commands the backend sends.

No time-to-live elapses here, so `EXPIRE` only says whether its key exists. A
set that loses its last member is no longer a key. Inside `MULTI`/`EXEC` every
command runs, whatever an earlier one answered, and the client then reports
the first error.
-/

namespace McpFramework

open Lib

namespace Redis

inductive Value where
  | string (bytes : List UInt8)
  | set (members : Finset String)
deriving DecidableEq

abbrev Db := HashMap String Value

inductive Command where
  | GET (k : String)
  | SET (k : String) (v : List UInt8)
  | DEL (k : String)
  | SADD (k member : String)
  | SREM (k member : String)
  | SMEMBERS (k : String)
  | EXPIRE (k : String) (secs : Nat)

inductive Reply where
  | ok
  | nil
  | bulk (v : List UInt8)
  | int (n : Nat)
  | members (ms : Finset String)
  | wrongType
deriving DecidableEq

def exec (db : Db) : Command → Db × Reply
  | .GET k =>
    match db.get? k with
    | some (.string v) => (db, .bulk v)
    | some (.set _) => (db, .wrongType)
    | none => (db, .nil)
  | .SET k v => (db.insert k (.string v), .ok)
  | .DEL k => (db.remove k, .int (if db.containsKey k then 1 else 0))
  | .SADD k m =>
    match db.get? k with
    | some (.string _) => (db, .wrongType)
    | some (.set ms) => (db.insert k (.set (insert m ms)), .int (if m ∈ ms then 0 else 1))
    | none => (db.insert k (.set {m}), .int 1)
  | .SREM k m =>
    match db.get? k with
    | some (.string _) => (db, .wrongType)
    | some (.set ms) =>
      (if ms.erase m = ∅ then db.remove k else db.insert k (.set (ms.erase m)),
        .int (if m ∈ ms then 1 else 0))
    | none => (db, .int 0)
  | .SMEMBERS k =>
    match db.get? k with
    | some (.string _) => (db, .wrongType)
    | some (.set ms) => (db, .members ms)
    | none => (db, .members ∅)
  | .EXPIRE k _ => (db, .int (if db.containsKey k then 1 else 0))

/-- A transaction: all commands, and whether one of them failed. -/
def pipe (db : Db) : List Command → Db × Bool
  | [] => (db, false)
  | c :: cs =>
    let r := exec db c
    let rest := pipe r.1 cs
    (rest.1, decide (r.2 = .wrongType) || rest.2)

end Redis

/-- The connection is the server's key space; `pfx` is the optional key
prefix. -/
structure RedisBackend where
  conn : Redis.Db
  pfx : Option String

namespace RedisBackend

open Redis

def redisKey (pfx : Option String) (ns key : String) : String :=
  match pfx with
  | some p => p ++ ":" ++ ns ++ ":" ++ key
  | none => ns ++ ":" ++ key

def indexKey (pfx : Option String) (ns : String) : String :=
  match pfx with
  | some p => p ++ ":" ++ ns ++ ":__idx__"
  | none => ns ++ ":__idx__"

/-- Whole seconds, and at least one. -/
def expireSecs (ttl : Nat) : Nat := max (ttl / 1000000000) 1

def setCommands (rkey idx member : String) (value : List UInt8) (ttl : Option Nat) :
    List Command :=
  [.SADD idx member, .SET rkey value] ++
    match ttl with
    | some ttl => [.EXPIRE rkey (expireSecs ttl)]
    | none => []

def deleteCommands (rkey idx member : String) : List Command :=
  [.DEL rkey, .SREM idx member]

def call (b : RedisBackend) : Op → RedisBackend × Output
  | .get ns key =>
    let r := exec b.conn (.GET (redisKey b.pfx ns.name key))
    ({ b with conn := r.1 },
      match r.2 with
      | .bulk v => .value (some v)
      | .nil => .value none
      | _ => .error)
  | .set ns key value ttl =>
    let r := pipe b.conn
      (setCommands (redisKey b.pfx ns.name key) (indexKey b.pfx ns.name) key value ttl)
    ({ b with conn := r.1 }, if r.2 then .error else .unit)
  | .delete ns key =>
    let r := pipe b.conn
      (deleteCommands (redisKey b.pfx ns.name key) (indexKey b.pfx ns.name) key)
    ({ b with conn := r.1 }, if r.2 then .error else .unit)
  | .keys ns =>
    let r := exec b.conn (.SMEMBERS (indexKey b.pfx ns.name))
    ({ b with conn := r.1 },
      match r.2 with
      | .members ms => .keys ms
      | _ => .error)
  | .touch ns key ttl =>
    let r := exec b.conn (.EXPIRE (redisKey b.pfx ns.name key) (expireSecs ttl))
    ({ b with conn := r.1 },
      match r.2 with
      | .int armed => .touch (if armed = 1 then .Armed else .Missing)
      | _ => .error)

/-! ## The key space -/

/-- The index of a namespace sits where its entry `__idx__` would. -/
theorem indexKey_eq (pfx : Option String) (ns : String) :
    indexKey pfx ns = redisKey pfx ns "__idx__" := by
  cases pfx with
  | none =>
    show ns ++ (":" ++ "__idx__") = ns ++ ":" ++ "__idx__"
    rw [String.append_assoc]
  | some p =>
    show p ++ ":" ++ ns ++ (":" ++ "__idx__") = p ++ ":" ++ ns ++ ":" ++ "__idx__"
    simp only [String.append_assoc]

/-- The first separator of a list is where it is. -/
theorem append_cons_inj_of_notMem_left {α : Type*} {c : α} {xs ys us vs : List α}
    (hx : c ∉ xs) (hy : c ∉ ys) (h : xs ++ c :: us = ys ++ c :: vs) : xs = ys ∧ us = vs := by
  induction xs generalizing ys with
  | nil =>
    cases ys with
    | nil => exact ⟨rfl, by simpa using h⟩
    | cons y ys =>
      simp only [List.nil_append, List.cons_append, List.cons.injEq] at h
      exact absurd (h.1 ▸ List.mem_cons_self) hy
  | cons x xs ih =>
    cases ys with
    | nil =>
      simp only [List.nil_append, List.cons_append, List.cons.injEq] at h
      exact absurd (h.1 ▸ List.mem_cons_self) hx
    | cons y ys =>
      simp only [List.cons_append, List.cons.injEq] at h
      obtain ⟨rfl, rfl⟩ := ih (fun hc => hx (List.mem_cons_of_mem _ hc))
        (fun hc => hy (List.mem_cons_of_mem _ hc)) h.2
      exact ⟨by rw [h.1], rfl⟩

/-- Namespaces without a colon make the storage key injective, whatever the
keys hold. -/
theorem redisKey_inj (pfx : Option String) (ns ns' : Namespace) (key key' : String) :
    redisKey pfx ns.name key = redisKey pfx ns'.name key' ↔ ns = ns' ∧ key = key' := by
  constructor
  · intro h
    have hlist : ns.name.toList ++ ':' :: key.toList = ns'.name.toList ++ ':' :: key'.toList := by
      have h' := congrArg String.toList h
      cases pfx with
      | none => simpa [redisKey] using h'
      | some p => simpa [redisKey] using h'
    obtain ⟨hn, hk⟩ := append_cons_inj_of_notMem_left ns.colonFree ns'.colonFree hlist
    refine ⟨?_, String.toList_inj.mp hk⟩
    cases ns
    cases ns'
    simpa using String.toList_inj.mp hn
  · rintro ⟨rfl, rfl⟩
    rfl

/-- **The collision**: an entry's storage key is an index key exactly for the
entry `__idx__` of that namespace. -/
theorem redisKey_eq_indexKey_iff (pfx : Option String) (ns ns' : Namespace) (key : String) :
    redisKey pfx ns.name key = indexKey pfx ns'.name ↔ ns = ns' ∧ key = "__idx__" := by
  rw [indexKey_eq, redisKey_inj]

end RedisBackend
end McpFramework
