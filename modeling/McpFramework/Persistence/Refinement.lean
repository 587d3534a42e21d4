import McpFramework.Persistence.Redis

/-!
# Persistence — Refinement

When the Redis backend answers as the in-memory backend does.

The view relates the flat key space to the map: at the storage key of an entry
sits its value, at the index key of a namespace the set of its live keys. Every
operation keeps the view and answers alike, except where it names the entry
`__idx__`, whose storage key is the index (`Plain`). Where one of those is not
plain, the answers differ at once or at the next `keys`.
-/

namespace McpFramework

open Lib

/-! ## What the commands do to a set key -/

namespace Redis

/-- The value at a key that holds a set; the empty set is no key. -/
def setValue (ms : Finset String) : Option Value :=
  if ms = ∅ then none else some (.set ms)

variable {db : Db} {k : String} {ms : Finset String}

theorem sadd_get? (h : db.get? k = setValue ms) (m k' : String) :
    (exec db (.SADD k m)).1.get? k' = if k' = k then setValue (insert m ms) else db.get? k' := by
  unfold setValue at h
  split at h
  · rename_i he
    simp [exec, h, he, HashMap.get?_insert, setValue]
  · simp [exec, h, HashMap.get?_insert, setValue]

theorem sadd_reply (h : db.get? k = setValue ms) (m : String) :
    (exec db (.SADD k m)).2 ≠ .wrongType := by
  unfold setValue at h
  split at h <;> simp [exec, h]

theorem srem_get? (h : db.get? k = setValue ms) (m k' : String) :
    (exec db (.SREM k m)).1.get? k' = if k' = k then setValue (ms.erase m) else db.get? k' := by
  unfold setValue at h
  split at h
  · rename_i he
    by_cases hk : k' = k
    · subst hk
      simp [exec, h, he, setValue]
    · simp [exec, h, hk]
  · by_cases he : ms.erase m = ∅
    · simp [exec, h, he, HashMap.get?_remove, setValue]
    · simp [exec, h, he, HashMap.get?_insert, setValue]

theorem srem_reply (h : db.get? k = setValue ms) (m : String) :
    (exec db (.SREM k m)).2 ≠ .wrongType := by
  unfold setValue at h
  split at h <;> simp [exec, h]

theorem exec_SET (db : Db) (k : String) (v : List UInt8) :
    exec db (.SET k v) = (db.insert k (.string v), .ok) := rfl

theorem exec_EXPIRE (db : Db) (k : String) (secs : Nat) :
    exec db (.EXPIRE k secs) = (db, .int (if db.containsKey k then 1 else 0)) := rfl

theorem smembers_eq (h : db.get? k = setValue ms) :
    exec db (.SMEMBERS k) = (db, .members ms) := by
  unfold setValue at h
  split at h
  · rename_i he
    simp [exec, h, he]
  · simp [exec, h]

end Redis

/-! ## The live keys -/

namespace InMemoryBackend

variable {m : InMemoryBackend} {ns ns' : Namespace} {key : String}

theorem name_eq_iff : ns.name = ns'.name ↔ ns = ns' := by
  constructor
  · intro h
    cases ns
    cases ns'
    simpa using h
  · exact congrArg Namespace.name

theorem live_set (v : List UInt8) :
    (m.set ns.name key v).live ns' = if ns' = ns then insert key (m.live ns') else m.live ns' := by
  ext k
  simp only [mem_live, get_set, name_eq_iff]
  by_cases hn : ns' = ns
  · by_cases hk : k = key <;> simp [hn, hk, mem_live]
  · simp [hn, mem_live]

theorem live_delete :
    (m.delete ns.name key).live ns' = if ns' = ns then (m.live ns').erase key else m.live ns' := by
  ext k
  simp only [mem_live, get_delete, name_eq_iff]
  by_cases hn : ns' = ns
  · by_cases hk : k = key <;> simp [hn, hk, mem_live]
  · simp [hn, mem_live]

end InMemoryBackend

/-! ## The view -/

namespace RedisBackend

open Redis

/-- What the storage key of (namespace, key) holds. -/
def view (m : InMemoryBackend) (ns : Namespace) (key : String) : Option Value :=
  if key = "__idx__" then setValue (m.live ns) else (m.get ns.name key).map .string

/-- The Redis state represents the in-memory state, which holds no entry
`__idx__`. -/
structure Represents (b : RedisBackend) (m : InMemoryBackend) : Prop where
  atKey : ∀ ns key, b.conn.get? (redisKey b.pfx ns.name key) = view m ns key
  noIndex : ∀ ns : Namespace, m.get ns.name "__idx__" = none

variable {b : RedisBackend} {m : InMemoryBackend}

theorem Represents.at_index (h : Represents b m) (ns : Namespace) :
    b.conn.get? (indexKey b.pfx ns.name) = setValue (m.live ns) := by
  rw [indexKey_eq, h.atKey]
  simp [view]

theorem Represents.at_entry (h : Represents b m) (ns : Namespace) {key : String}
    (hk : key ≠ "__idx__") :
    b.conn.get? (redisKey b.pfx ns.name key) = (m.get ns.name key).map .string := by
  rw [h.atKey]
  simp [view, hk]

theorem represents_new (pfx : Option String) :
    Represents ⟨HashMap.empty, pfx⟩ InMemoryBackend.new := by
  have hget : ∀ ns key, InMemoryBackend.new.get ns key = none := fun ns key => by
    simp [InMemoryBackend.get, InMemoryBackend.new]
  refine ⟨fun ns key => ?_, fun ns => hget _ _⟩
  have hlive : InMemoryBackend.new.live ns = ∅ := by
    ext k
    simp [InMemoryBackend.mem_live, hget]
  simp [view, hlive, setValue, hget]

/-- A storage key of another entry, and the index key, are other keys. -/
theorem redisKey_ne_indexKey (pfx : Option String) (ns ns' : Namespace) {key : String}
    (hk : key ≠ "__idx__") : redisKey pfx ns.name key ≠ indexKey pfx ns'.name :=
  fun h => hk ((redisKey_eq_indexKey_iff pfx ns ns' key).mp h).2

/-! ## One operation -/

/-- The operation does not reach the index of its namespace through the entry
`__idx__`: it does not write that entry, and only asks for it or deletes it
while the namespace is empty. -/
def Plain (m : InMemoryBackend) : Op → Prop
  | .get ns key => key = "__idx__" → m.live ns = ∅
  | .set _ key _ _ => key ≠ "__idx__"
  | .delete ns key => key = "__idx__" → m.live ns = ∅
  | .keys _ => True
  | .touch ns key _ => key = "__idx__" → m.live ns = ∅

instance (m : InMemoryBackend) (op : Op) : Decidable (Plain m op) :=
  match op with
  | .get ns key => inferInstanceAs (Decidable (key = "__idx__" → m.live ns = ∅))
  | .set _ key _ _ => inferInstanceAs (Decidable (key ≠ "__idx__"))
  | .delete ns key => inferInstanceAs (Decidable (key = "__idx__" → m.live ns = ∅))
  | .keys _ => inferInstanceAs (Decidable True)
  | .touch ns key _ => inferInstanceAs (Decidable (key = "__idx__" → m.live ns = ∅))

/-- At a plain key both sides hold the same value, which is no set. -/
theorem Represents.at_plain (h : Represents b m) {ns : Namespace} {key : String}
    (hp : key = "__idx__" → m.live ns = ∅) :
    b.conn.get? (redisKey b.pfx ns.name key) = (m.get ns.name key).map .string := by
  by_cases hk : key = "__idx__"
  · subst hk
    rw [h.atKey, h.noIndex]
    simp [view, setValue, hp rfl]
  · exact h.at_entry ns hk

theorem Represents.get (h : Represents b m) {ns : Namespace} {key : String}
    (hp : Plain m (.get ns key)) : b.call (.get ns key) = (b, (m.call (.get ns key)).2) := by
  have hat := h.at_plain hp
  cases hg : m.get ns.name key with
  | none =>
    rw [hg] at hat
    simp only [Option.map_none] at hat
    simp [call, exec, hat, InMemoryBackend.call, hg]
  | some v =>
    rw [hg] at hat
    simp only [Option.map_some] at hat
    simp [call, exec, hat, InMemoryBackend.call, hg]

theorem Represents.touch (h : Represents b m) {ns : Namespace} {key : String} {ttl : Nat}
    (hp : Plain m (.touch ns key ttl)) :
    b.call (.touch ns key ttl) = (b, (m.call (.touch ns key ttl)).2) := by
  have hat := h.at_plain hp
  have hget : m.data.get? (ns.name, key) = m.get ns.name key := rfl
  cases hg : m.get ns.name key with
  | none =>
    rw [hg] at hat hget
    simp [call, exec, HashMap.containsKey, hat, InMemoryBackend.call, InMemoryBackend.touch, hget]
  | some v =>
    rw [hg] at hat hget
    simp [call, exec, HashMap.containsKey, hat, InMemoryBackend.call, InMemoryBackend.touch, hget]

theorem Represents.keys (h : Represents b m) (ns : Namespace) :
    b.call (.keys ns) = (b, (m.call (.keys ns)).2) := by
  simp [call, smembers_eq (h.at_index ns), InMemoryBackend.call, InMemoryBackend.live]

/-- What a transaction of `set` leaves: the value at its entry, the key in the
index of its namespace, everything else as it was. -/
theorem set_spec {ms : Finset String} {pfx : Option String} {db : Db} {ns : Namespace}
    (hidx : db.get? (indexKey pfx ns.name) = setValue ms) (key : String)
    (v : List UInt8) (ttl : Option Nat) :
    (pipe db (setCommands (redisKey pfx ns.name key) (indexKey pfx ns.name) key v ttl)).2
        = false ∧
      ∀ k', (pipe db (setCommands (redisKey pfx ns.name key) (indexKey pfx ns.name) key v
          ttl)).1.get? k' =
        if k' = redisKey pfx ns.name key then some (.string v)
        else if k' = indexKey pfx ns.name then setValue (insert key ms) else db.get? k' := by
  have hreply := sadd_reply hidx key
  have hget := sadd_get? hidx key
  have hpipe : pipe db (setCommands (redisKey pfx ns.name key) (indexKey pfx ns.name) key v ttl) =
      ((exec db (.SADD (indexKey pfx ns.name) key)).1.insert (redisKey pfx ns.name key)
        (.string v), false) := by
    cases ttl <;> simp [setCommands, pipe, hreply, exec_SET, exec_EXPIRE]
  rw [hpipe]
  refine ⟨rfl, fun k' => ?_⟩
  rw [HashMap.get?_insert, hget]

/-- What a transaction of `delete` leaves, on an entry that is not the index. -/
theorem delete_spec {ms : Finset String} {pfx : Option String} {db : Db} {ns : Namespace}
    {key : String} (hidx : db.get? (indexKey pfx ns.name) = setValue ms)
    (hk : key ≠ "__idx__") :
    (pipe db (deleteCommands (redisKey pfx ns.name key) (indexKey pfx ns.name) key)).2 = false ∧
      ∀ k', (pipe db (deleteCommands (redisKey pfx ns.name key) (indexKey pfx ns.name)
          key)).1.get? k' =
        if k' = redisKey pfx ns.name key then none
        else if k' = indexKey pfx ns.name then setValue (ms.erase key) else db.get? k' := by
  have hne : indexKey pfx ns.name ≠ redisKey pfx ns.name key :=
    (redisKey_ne_indexKey pfx ns ns hk).symm
  have hidx' : (db.remove (redisKey pfx ns.name key)).get? (indexKey pfx ns.name) =
      setValue ms := by
    rw [HashMap.get?_remove, if_neg hne, hidx]
  have hreply := srem_reply hidx' key
  have hget := srem_get? hidx' key
  have hdel : (exec db (.DEL (redisKey pfx ns.name key))).1 =
    db.remove (redisKey pfx ns.name key) := rfl
  refine ⟨?_, fun k' => ?_⟩
  · simp only [deleteCommands, pipe, hdel, Bool.or_false, hreply, decide_false]
    simp [exec]
  · simp only [deleteCommands, pipe, hdel]
    rw [hget, HashMap.get?_remove]
    by_cases hk' : k' = redisKey pfx ns.name key
    · subst hk'
      simp [redisKey_ne_indexKey pfx ns ns hk]
    · simp [hk']

theorem Represents.set (h : Represents b m) {ns : Namespace} {key : String} {v : List UInt8}
    {ttl : Option Nat} (hk : key ≠ "__idx__") :
    (b.call (.set ns key v ttl)).2 = (m.call (.set ns key v ttl)).2 ∧
      Represents (b.call (.set ns key v ttl)).1 (m.call (.set ns key v ttl)).1 := by
  obtain ⟨hreply, hget⟩ := set_spec (h.at_index ns) key v ttl
  refine ⟨by simp [call, hreply, InMemoryBackend.call], fun ns' key' => ?_, fun ns' => ?_⟩
  · show (pipe b.conn _).1.get? (redisKey b.pfx ns'.name key') = _
    rw [hget]
    simp only [redisKey_inj, redisKey_eq_indexKey_iff, h.atKey, view, InMemoryBackend.call,
      InMemoryBackend.live_set, InMemoryBackend.get_set, InMemoryBackend.name_eq_iff]
    by_cases hi : key' = "__idx__"
    · subst hi
      by_cases hn : ns' = ns <;> simp [hn, hk.symm]
    · by_cases hn : ns' = ns <;> by_cases hkk : key' = key <;> simp [hn, hi, hkk, hk]
  · show (m.set ns.name key v).get ns'.name "__idx__" = none
    rw [InMemoryBackend.get_set]
    simp [hk.symm, h.noIndex]

theorem Represents.delete_entry (h : Represents b m) {ns : Namespace} {key : String}
    (hk : key ≠ "__idx__") :
    (b.call (.delete ns key)).2 = (m.call (.delete ns key)).2 ∧
      Represents (b.call (.delete ns key)).1 (m.call (.delete ns key)).1 := by
  obtain ⟨hreply, hget⟩ := delete_spec (h.at_index ns) hk
  refine ⟨by simp [call, hreply, InMemoryBackend.call], fun ns' key' => ?_, fun ns' => ?_⟩
  · show (pipe b.conn _).1.get? (redisKey b.pfx ns'.name key') = _
    rw [hget]
    simp only [redisKey_inj, redisKey_eq_indexKey_iff, h.atKey, view, InMemoryBackend.call,
      InMemoryBackend.live_delete, InMemoryBackend.get_delete, InMemoryBackend.name_eq_iff]
    by_cases hi : key' = "__idx__"
    · subst hi
      by_cases hn : ns' = ns <;> simp [hn, hk.symm]
    · by_cases hn : ns' = ns <;> by_cases hkk : key' = key <;> simp [hn, hi, hkk, hk]
  · show (m.delete ns.name key).get ns'.name "__idx__" = none
    rw [InMemoryBackend.get_delete]
    simp [h.noIndex]

/-- Deleting `__idx__` deletes the index. -/
theorem delete_index (b : RedisBackend) (ns : Namespace) :
    (b.call (.delete ns "__idx__")).2 = .unit ∧
      ∀ k', (b.call (.delete ns "__idx__")).1.conn.get? k' =
        if k' = indexKey b.pfx ns.name then none else b.conn.get? k' := by
  have hnone : (b.conn.remove (indexKey b.pfx ns.name)).get? (indexKey b.pfx ns.name) =
    setValue ∅ := by simp [setValue]
  have hreply := srem_reply hnone "__idx__"
  have hget := srem_get? hnone "__idx__"
  have hdel : (exec b.conn (.DEL (indexKey b.pfx ns.name))).1 =
    b.conn.remove (indexKey b.pfx ns.name) := rfl
  have hcall : b.call (.delete ns "__idx__") =
      let r := pipe b.conn (deleteCommands (indexKey b.pfx ns.name) (indexKey b.pfx ns.name)
        "__idx__")
      ({ b with conn := r.1 }, if r.2 then .error else .unit) := by
    simp only [call, ← indexKey_eq]
  rw [hcall]
  refine ⟨?_, fun k' => ?_⟩
  · simp only [deleteCommands, pipe, hdel, Bool.or_false, hreply, decide_false]
    simp [exec]
  · simp only [deleteCommands, pipe, hdel]
    rw [hget, HashMap.get?_remove]
    by_cases hk' : k' = indexKey b.pfx ns.name <;> simp [hk', setValue]

theorem Represents.delete (h : Represents b m) {ns : Namespace} {key : String}
    (hp : Plain m (.delete ns key)) :
    (b.call (.delete ns key)).2 = (m.call (.delete ns key)).2 ∧
      Represents (b.call (.delete ns key)).1 (m.call (.delete ns key)).1 := by
  by_cases hk : key = "__idx__"
  · subst hk
    -- The namespace is empty: there is no index to delete and no entry either.
    obtain ⟨hout, hget⟩ := delete_index b ns
    have hempty := hp rfl
    refine ⟨hout, fun ns' key' => ?_, fun ns' => ?_⟩
    · rw [hget]
      show (if redisKey b.pfx ns'.name key' = indexKey b.pfx ns.name then none
        else b.conn.get? (redisKey b.pfx ns'.name key')) = _
      simp only [redisKey_eq_indexKey_iff, h.atKey, view, InMemoryBackend.call,
        InMemoryBackend.live_delete, InMemoryBackend.get_delete, InMemoryBackend.name_eq_iff]
      by_cases hi : key' = "__idx__"
      · by_cases hn : ns' = ns <;> simp [hn, hi, hempty, setValue]
      · simp [hi]
    · show (m.delete ns.name "__idx__").get ns'.name "__idx__" = none
      rw [InMemoryBackend.get_delete]
      simp [h.noIndex]
  · exact h.delete_entry hk

/-- **The simulation step**: a plain operation answers alike and keeps the
view. -/
theorem Represents.call (h : Represents b m) {op : Op} (hp : Plain m op) :
    (b.call op).2 = (m.call op).2 ∧ Represents (b.call op).1 (m.call op).1 := by
  cases op with
  | get ns key =>
    rw [h.get hp]
    exact ⟨rfl, h⟩
  | set ns key v ttl => exact h.set hp
  | delete ns key => exact h.delete hp
  | keys ns =>
    rw [h.keys ns]
    exact ⟨rfl, h⟩
  | touch ns key ttl =>
    rw [h.touch hp]
    exact ⟨rfl, h⟩

/-! ## Operations that are not plain -/

theorem setValue_of_ne {ms : Finset String} (h : ms ≠ ∅) : setValue ms = some (.set ms) := by
  simp [setValue, h]

/-- An operation that is not plain shows: its own answer differs, or that of
the next `keys` on its namespace. -/
theorem Represents.not_plain (h : Represents b m) {op : Op} (hp : ¬ Plain m op) :
    (b.call op).2 ≠ (m.call op).2 ∨
      ∃ ns, ((b.call op).1.call (.keys ns)).2 ≠ ((m.call op).1.call (.keys ns)).2 := by
  cases op with
  | get ns key =>
    simp only [Plain, Classical.not_imp] at hp
    obtain ⟨rfl, hlive⟩ := hp
    have hat := (h.at_index ns).trans (setValue_of_ne hlive)
    rw [indexKey_eq] at hat
    left
    simp [RedisBackend.call, exec, hat, InMemoryBackend.call]
  | set ns key v ttl =>
    simp only [Plain, not_not] at hp
    subst hp
    right
    refine ⟨ns, ?_⟩
    -- The value overwrites the index, which is then no set.
    have hover : (b.call (.set ns "__idx__" v ttl)).1.conn.get? (indexKey b.pfx ns.name) =
        some (.string v) := by
      cases ttl <;> simp [RedisBackend.call, setCommands, pipe, exec, ← indexKey_eq]
    have hpfx : (b.call (.set ns "__idx__" v ttl)).1.pfx = b.pfx := rfl
    generalize b.call (.set ns "__idx__" v ttl) = r at hover hpfx
    simp [RedisBackend.call, exec, hpfx, hover, InMemoryBackend.call]
  | delete ns key =>
    simp only [Plain, Classical.not_imp] at hp
    obtain ⟨rfl, hlive⟩ := hp
    right
    refine ⟨ns, ?_⟩
    obtain ⟨-, hget⟩ := delete_index b ns
    have hnone := hget (indexKey b.pfx ns.name)
    rw [if_pos rfl] at hnone
    have hpfx : (b.call (.delete ns "__idx__")).1.pfx = b.pfx := rfl
    -- No entry goes, but the index does.
    have hkeep : (m.call (.delete ns "__idx__")).1.live ns = m.live ns := by
      have hnot : "__idx__" ∉ m.live ns := by simp [InMemoryBackend.mem_live, h.noIndex]
      simp only [InMemoryBackend.call, InMemoryBackend.live_delete, if_true]
      exact Finset.erase_eq_of_notMem hnot
    generalize b.call (.delete ns "__idx__") = r at hnone hpfx
    generalize m.call (.delete ns "__idx__") = r' at hkeep
    have hmem : (r'.1.call (.keys ns)).2 = .keys (m.live ns) := by rw [← hkeep]; rfl
    rw [hmem]
    simp [RedisBackend.call, exec, hpfx, hnone, Ne.symm hlive]
  | keys ns => exact absurd trivial hp
  | touch ns key ttl =>
    simp only [Plain, Classical.not_imp] at hp
    obtain ⟨rfl, hlive⟩ := hp
    have hat := (h.at_index ns).trans (setValue_of_ne hlive)
    rw [indexKey_eq] at hat
    have hmem : m.data.get? (ns.name, "__idx__") = none := h.noIndex ns
    left
    simp [RedisBackend.call, exec, HashMap.containsKey, hat, InMemoryBackend.call,
      InMemoryBackend.touch, hmem]

/-! ## Sequences of operations -/

/-- The answers of a sequence of calls. -/
def outputs : RedisBackend → List Op → List Output
  | _, [] => []
  | b, op :: ops => (b.call op).2 :: outputs (b.call op).1 ops

end RedisBackend

/-- The answers of a sequence of calls. -/
def InMemoryBackend.outputs : InMemoryBackend → List Op → List Output
  | _, [] => []
  | m, op :: ops => (m.call op).2 :: InMemoryBackend.outputs (m.call op).1 ops

namespace RedisBackend

/-- Every operation of the sequence is plain where it is called. -/
def AllPlain : InMemoryBackend → List Op → Prop
  | _, [] => True
  | m, op :: ops => Plain m op ∧ AllPlain (m.call op).1 ops

/-- The two backends cannot be told apart along the sequence: not by its own
answers, nor by asking at any point of it for the keys of a namespace. -/
def Indistinguishable (b : RedisBackend) (m : InMemoryBackend) (ops : List Op) : Prop :=
  ∀ pre, pre <+: ops → ∀ ns, b.outputs (pre ++ [.keys ns]) = m.outputs (pre ++ [.keys ns])

theorem Represents.indistinguishable_iff {b : RedisBackend} {m : InMemoryBackend}
    (h : Represents b m) (ops : List Op) : Indistinguishable b m ops ↔ AllPlain m ops := by
  induction ops generalizing b m with
  | nil =>
    refine ⟨fun _ => trivial, fun _ pre hpre ns => ?_⟩
    rw [List.prefix_nil.mp hpre]
    simp [outputs, InMemoryBackend.outputs, h.keys ns]
  | cons op ops ih =>
    constructor
    · intro hall
      have hplain : Plain m op := by
        by_contra hp
        -- Ask right after the operation that is not plain.
        have hask : ∀ ns, (b.call op).2 = (m.call op).2 ∧
            ((b.call op).1.call (.keys ns)).2 = ((m.call op).1.call (.keys ns)).2 := fun ns => by
          simpa [outputs, InMemoryBackend.outputs] using hall [op] (by simp) ns
        rcases h.not_plain hp with hne | ⟨ns, hne⟩
        · exact hne (hask NS_SESSIONS).1
        · exact hne (hask ns).2
      refine ⟨hplain, (ih (h.call hplain).2).mp fun pre hpre ns => ?_⟩
      have := hall (op :: pre) (List.cons_prefix_cons.mpr ⟨rfl, hpre⟩) ns
      simp only [List.cons_append, outputs, InMemoryBackend.outputs, List.cons.injEq] at this
      exact this.2
    · rintro ⟨hplain, hrest⟩ pre hpre ns
      obtain ⟨hout, hrep⟩ := h.call hplain
      cases pre with
      | nil => simp [outputs, InMemoryBackend.outputs, h.keys ns]
      | cons op' pre =>
        obtain ⟨rfl, htail⟩ := List.cons_prefix_cons.mp hpre
        simp only [List.cons_append, outputs, InMemoryBackend.outputs, List.cons.injEq]
        exact ⟨hout, (ih hrep).mpr hrest pre htail ns⟩

theorem Represents.outputs_eq {b : RedisBackend} {m : InMemoryBackend} (h : Represents b m)
    {ops : List Op} (hp : AllPlain m ops) : b.outputs ops = m.outputs ops := by
  induction ops generalizing b m with
  | nil => rfl
  | cons op ops ih =>
    obtain ⟨hout, hrep⟩ := h.call hp.1
    simp only [outputs, InMemoryBackend.outputs, hout, ih hrep hp.2]

/-- **Redis refines the in-memory map exactly where `__idx__` is left alone.**
A sequence of plain operations answers alike; a sequence cannot be told apart
at any point if and only if it is plain; and storage keys coincide only for one
and the same entry, an index key with no entry's but `__idx__`. -/
theorem refines_iff_allPlain (pfx : Option String) (ops : List Op) :
    (AllPlain InMemoryBackend.new ops →
        outputs ⟨HashMap.empty, pfx⟩ ops = InMemoryBackend.new.outputs ops) ∧
      (Indistinguishable ⟨HashMap.empty, pfx⟩ InMemoryBackend.new ops ↔
        AllPlain InMemoryBackend.new ops) ∧
      (∀ (ns ns' : Namespace) (key key' : String),
        redisKey pfx ns.name key = redisKey pfx ns'.name key' ↔ ns = ns' ∧ key = key') ∧
      ∀ (ns ns' : Namespace) (key : String),
        redisKey pfx ns.name key = indexKey pfx ns'.name ↔ ns = ns' ∧ key = "__idx__" :=
  ⟨fun hp => (represents_new pfx).outputs_eq hp,
    (represents_new pfx).indistinguishable_iff ops,
    redisKey_inj pfx, redisKey_eq_indexKey_iff pfx⟩

/-- A client that names its session `__idx__` breaks `keys` of the namespace:
Redis answers `WRONGTYPE`, the map the one key. -/
theorem session_named_idx_breaks_keys :
    ¬ ∀ (pfx : Option String) (ops : List Op),
      outputs ⟨HashMap.empty, pfx⟩ ops = InMemoryBackend.new.outputs ops := by
  intro h
  have := h none [.set NS_SESSIONS "__idx__" [123, 125] none, .keys NS_SESSIONS]
  revert this
  decide

end RedisBackend
end McpFramework
