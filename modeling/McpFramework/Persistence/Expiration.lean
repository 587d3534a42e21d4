import McpFramework.Persistence.Expiring
import McpFramework.Persistence.RedisServer

/-!
# Persistence — Expiration

The Redis backend with lifetimes that elapse is the map with deadlines.

The index of a namespace has no deadline, so an entry stays listed after it has
expired, until it is deleted: the backend lists what the in-memory backend
lists, and differs from it on one entry only where that has expired
(`lifetimes_only_take_away`).
-/

namespace McpFramework

open Lib

/-! ## The simulation -/

namespace TimedRedisBackend

open Redis RedisBackend

/-- The server holds the entries that have not expired with their deadlines, and
for each namespace all its entries in an index without one. -/
structure Represents (b : TimedRedisBackend) (m : ExpiringBackend) : Prop where
  now : b.conn.now = m.now
  entry : ∀ (ns : Namespace) key, key ≠ "__idx__" →
    b.conn.live.get? (redisKey b.pfx ns.name key) = (m.get ns.name key).map .string
  deadline : ∀ (ns : Namespace) key, key ≠ "__idx__" →
    b.conn.deadline (redisKey b.pfx ns.name key) = m.deadline ns.name key
  index : ∀ ns : Namespace,
    b.conn.live.get? (indexKey b.pfx ns.name) = setValue (m.entries.live ns)
  endless : ∀ ns : Namespace, b.conn.deadline (indexKey b.pfx ns.name) = none
  noIndex : ∀ ns : Namespace, m.entries.get ns.name "__idx__" = none

variable {b : TimedRedisBackend} {m : ExpiringBackend}

theorem represents_new (pfx : Option String) :
    Represents ⟨Server.new, pfx⟩ ExpiringBackend.new := by
  have hdb : ∀ k, Server.new.live.get? k = none := by
    intro k
    rw [Server.live_get?]
    exact Deadline.read_none _ _
  have hnone : ∀ ns key, ExpiringBackend.new.get ns key = none :=
    fun ns key => Deadline.read_none _ _
  have hlive : ∀ ns, ExpiringBackend.new.entries.live ns = ∅ := by
    intro ns
    ext k
    simp [InMemoryBackend.mem_live, ExpiringBackend.new, InMemoryBackend.get, InMemoryBackend.new]
  refine ⟨rfl, fun ns key _ => ?_, fun ns key _ => ?_, fun ns => ?_, fun ns => ?_, fun ns => ?_⟩
  · rw [hdb, hnone]
    rfl
  · rw [Server.deadline_of_absent (hdb _), ExpiringBackend.deadline_of_absent (hnone _ _)]
  · rw [hdb, hlive]
    rfl
  · exact Server.deadline_of_absent (hdb _)
  · simp [ExpiringBackend.new, InMemoryBackend.get, InMemoryBackend.new]

/-- Time takes the same entries from both. -/
theorem Represents.elapse (h : Represents b m) (ms : Nat) :
    Represents (b.elapse ms) (m.elapse ms) := by
  refine ⟨?_, fun ns key hk => ?_, fun ns key hk => ?_, fun ns => ?_, fun ns => ?_, h.noIndex⟩
  · show b.conn.now + ms = m.now + ms
    rw [h.now]
  · show (b.conn.elapse ms).live.get? (redisKey b.pfx ns.name key) = _
    rw [Server.elapse_get?, ExpiringBackend.elapse_get, h.deadline ns key hk, h.entry ns key hk,
      h.now, Deadline.read_map]
  · show (b.conn.elapse ms).deadline (redisKey b.pfx ns.name key) = _
    rw [Server.elapse_deadline, ExpiringBackend.elapse_deadline, h.deadline ns key hk,
      h.entry ns key hk, h.now, Deadline.left_map]
  · show (b.conn.elapse ms).live.get? (indexKey b.pfx ns.name) = setValue (m.entries.live ns)
    rw [Server.elapse_get?, h.endless, h.index, Deadline.read_endless]
  · show (b.conn.elapse ms).deadline (indexKey b.pfx ns.name) = none
    rw [Server.elapse_deadline, h.endless, Deadline.left_endless]

/-- Whatever leaves the keys and their deadlines keeps the relation. -/
theorem Represents.of_eq (h : Represents b m) {conn : Server} (hnow : conn.now = b.conn.now)
    (hlive : conn.live = b.conn.live) (hdeadline : ∀ k, conn.deadline k = b.conn.deadline k) :
    Represents { b with conn := conn } m := by
  refine ⟨hnow.trans h.now, fun ns key hk => ?_, fun ns key hk => ?_, fun ns => ?_, fun ns => ?_,
    h.noIndex⟩
  · rw [hlive]
    exact h.entry ns key hk
  · rw [hdeadline]
    exact h.deadline ns key hk
  · rw [hlive]
    exact h.index ns
  · rw [hdeadline]
    exact h.endless ns

/-- A command that only reads. -/
theorem Represents.reads (h : Represents b m) {c : Command}
    (hdb : (Redis.exec b.conn.live c).1 = b.conn.live)
    (hdeadline : ∀ k, b.conn.deadlineAfter c k = b.conn.deadline k) :
    Represents { b with conn := (b.conn.exec c).1 } m := by
  refine h.of_eq rfl ((Server.live_exec b.conn c).trans hdb) fun k => ?_
  rw [Server.deadline_exec_of, hdeadline]
  intro habsent
  rw [hdb] at habsent
  rw [hdeadline]
  exact Server.deadline_of_absent habsent

/-- At a plain key both sides hold the same value, which is no set. -/
theorem Represents.at_plain (h : Represents b m) {ns : Namespace} {key : String}
    (hp : key = "__idx__" → m.entries.live ns = ∅) :
    b.conn.live.get? (redisKey b.pfx ns.name key) = (m.get ns.name key).map .string := by
  by_cases hk : key = "__idx__"
  · have hget : m.get ns.name key = none := by
      rw [hk]
      unfold ExpiringBackend.get
      rw [h.noIndex, Deadline.read_none]
    have hidx := h.index ns
    rw [indexKey_eq, ← hk, hp hk] at hidx
    rw [hidx, hget]
    rfl
  · exact h.entry ns key hk

theorem Represents.get (h : Represents b m) {ns : Namespace} {key : String}
    (hp : Plain m.entries (.get ns key)) :
    (b.call (.get ns key)).2 = (m.call (.get ns key)).2 ∧
      Represents (b.call (.get ns key)).1 m := by
  have hat := h.at_plain hp
  have hdb : (Redis.exec b.conn.live (.GET (redisKey b.pfx ns.name key))).1 = b.conn.live := by
    simp only [Redis.exec, hat]
    cases m.get ns.name key <;> rfl
  refine ⟨?_, h.reads hdb fun _ => rfl⟩
  simp only [call, Server.exec, Redis.exec, hat, ExpiringBackend.call]
  cases m.get ns.name key <;> rfl

theorem Represents.keys (h : Represents b m) (ns : Namespace) :
    (b.call (.keys ns)).2 = (m.call (.keys ns)).2 ∧ Represents (b.call (.keys ns)).1 m := by
  have hmembers := smembers_eq (h.index ns)
  refine ⟨?_, h.reads (congrArg Prod.fst hmembers) fun _ => rfl⟩
  simp only [call, Server.exec, hmembers, ExpiringBackend.call]

/-- The server's clock gives an entry the deadline that the map gives it. -/
theorem Represents.lifetime (h : Represents b m) (ttl : Nat) :
    b.conn.now + expireSecs ttl * 1000 = m.lifetime ttl := by
  rw [h.now, ExpiringBackend.lifetime]

theorem Represents.touch (h : Represents b m) {ns : Namespace} {key : String} {ttl : Nat}
    (hp : Plain m.entries (.touch ns key ttl)) :
    (b.call (.touch ns key ttl)).2 = (m.call (.touch ns key ttl)).2 ∧
      Represents (b.call (.touch ns key ttl)).1 (m.call (.touch ns key ttl)).1 := by
  have hat := h.at_plain hp
  have hcontains : b.conn.live.containsKey (redisKey b.pfx ns.name key) =
      (m.get ns.name key).isSome := by
    unfold HashMap.containsKey
    rw [hat, Option.isSome_map]
  have hlive : ((b.conn.exec (.EXPIRE (redisKey b.pfx ns.name key) (expireSecs ttl))).1).live =
      b.conn.live := by
    rw [Server.live_exec, exec_EXPIRE]
  have hentries : (m.call (.touch ns key ttl)).1.entries = m.entries :=
    ExpiringBackend.call_entries m _
  constructor
  · simp only [call, Server.exec, exec_EXPIRE, hcontains, ExpiringBackend.call]
    cases (m.get ns.name key).isSome <;> rfl
  refine ⟨?_, fun ns' key' hk => ?_, fun ns' key' hk => ?_, fun ns' => ?_, fun ns' => ?_,
    fun ns' => ?_⟩
  · rw [ExpiringBackend.now_call]
    exact h.now
  · show (b.conn.exec _).1.live.get? (redisKey b.pfx ns'.name key') = _
    rw [hlive, ExpiringBackend.get_touch]
    exact h.entry ns' key' hk
  · show (b.conn.exec _).1.deadline (redisKey b.pfx ns'.name key') = _
    rw [Server.deadline_EXPIRE, ExpiringBackend.deadline_touch, h.deadline ns' key' hk, hcontains,
      h.lifetime]
    simp only [redisKey_inj]
  · show (b.conn.exec _).1.live.get? (indexKey b.pfx ns'.name) = _
    rw [hlive, hentries]
    exact h.index ns'
  · show (b.conn.exec _).1.deadline (indexKey b.pfx ns'.name) = none
    rw [Server.deadline_EXPIRE, h.endless]
    -- The key is the index only where the namespace is empty: there is nothing to arm.
    refine if_neg fun hboth => ?_
    obtain ⟨hsame, hsome⟩ := hboth
    obtain ⟨rfl, hk⟩ := (redisKey_eq_indexKey_iff b.pfx ns ns' key).mp hsame.symm
    have hidx := h.index ns
    rw [hp hk] at hidx
    unfold HashMap.containsKey at hsome
    rw [← hsame, hidx] at hsome
    cases hsome
  · rw [hentries]
    exact h.noIndex ns'

/-- The deadlines a transaction of `set` leaves. -/
theorem set_deadline {s : Server} {ms : Finset String} {idx : String}
    (hidx : s.live.get? idx = setValue ms) (rkey key : String) (v : List UInt8) (ttl : Option Nat)
    (k : String) :
    (s.pipe (setCommands rkey idx key v ttl)).1.deadline k =
      if k = rkey then ttl.map fun ttl => s.now + expireSecs ttl * 1000 else s.deadline k := by
  have hset : ∀ k, ((s.exec (.SADD idx key)).1.exec (.SET rkey v)).1.deadline k =
      if k = rkey then none else s.deadline k := by
    intro k
    rw [Server.deadline_SET, Server.deadline_sadd hidx]
  cases ttl with
  | none => exact hset k
  | some ttl =>
    have hlive : ((s.exec (.SADD idx key)).1.exec (.SET rkey v)).1.live.containsKey rkey =
        true := by
      unfold HashMap.containsKey
      rw [Server.live_exec, exec_SET, HashMap.get?_insert_self]
      rfl
    show (((s.exec (.SADD idx key)).1.exec (.SET rkey v)).1.exec
      (.EXPIRE rkey (expireSecs ttl))).1.deadline k = _
    rw [Server.deadline_EXPIRE, hlive, hset]
    by_cases hk : k = rkey
    · simp [hk]
    · simp [hk]

theorem Represents.set (h : Represents b m) {ns : Namespace} {key : String} {v : List UInt8}
    {ttl : Option Nat} (hk : key ≠ "__idx__") :
    (b.call (.set ns key v ttl)).2 = (m.call (.set ns key v ttl)).2 ∧
      Represents (b.call (.set ns key v ttl)).1 (m.call (.set ns key v ttl)).1 := by
  obtain ⟨hreply, hget⟩ := set_spec (h.index ns) key v ttl
  obtain ⟨hlive, hfailed⟩ := Server.pipe_live b.conn
    (setCommands (redisKey b.pfx ns.name key) (indexKey b.pfx ns.name) key v ttl)
  have hdeadline := set_deadline (h.index ns) (redisKey b.pfx ns.name key) key v ttl
  have hnot : ∀ ns' : Namespace, indexKey b.pfx ns'.name ≠ redisKey b.pfx ns.name key :=
    fun ns' => (redisKey_ne_indexKey b.pfx ns ns' hk).symm
  constructor
  · simp only [call, hfailed, hreply, ExpiringBackend.call]
    rfl
  refine ⟨?_, fun ns' key' hk' => ?_, fun ns' key' hk' => ?_, fun ns' => ?_, fun ns' => ?_,
    fun ns' => ?_⟩
  · rw [ExpiringBackend.now_call]
    exact (Server.now_pipe _ _).trans h.now
  · show (b.conn.pipe _).1.live.get? (redisKey b.pfx ns'.name key') = _
    rw [hlive, hget, ExpiringBackend.get_set, h.entry ns' key' hk']
    simp only [redisKey_inj, redisKey_ne_indexKey b.pfx ns' ns hk', if_false]
    split <;> rfl
  · show (b.conn.pipe _).1.deadline (redisKey b.pfx ns'.name key') = _
    rw [hdeadline, ExpiringBackend.deadline_set, h.deadline ns' key' hk']
    simp only [redisKey_inj, h.now]
    rfl
  · show (b.conn.pipe _).1.live.get? (indexKey b.pfx ns'.name) = setValue
      ((m.entries.set ns.name key v).live ns')
    rw [hlive, hget, if_neg (hnot ns'), InMemoryBackend.live_set, h.index]
    simp only [indexKey_eq, redisKey_inj, and_true]
    by_cases hn : ns' = ns
    · simp [hn]
    · simp [hn]
  · show (b.conn.pipe _).1.deadline (indexKey b.pfx ns'.name) = none
    rw [hdeadline, if_neg (hnot ns')]
    exact h.endless ns'
  · show (m.entries.set ns.name key v).get ns'.name "__idx__" = none
    rw [InMemoryBackend.get_set]
    simp [hk.symm, h.noIndex]

/-- The deadlines a transaction of `delete` leaves. -/
theorem delete_deadline {s : Server} {ms : Finset String} {rkey idx : String}
    (hidx : s.live.get? idx = setValue ms) (hendless : s.deadline idx = none)
    (hempty : rkey = idx → ms = ∅) (key k : String) :
    (s.pipe (deleteCommands rkey idx key)).1.deadline k =
      if k = rkey then none else s.deadline k := by
  have hidx' : (s.exec (.DEL rkey)).1.live.get? idx = setValue ms := by
    rw [Server.live_exec]
    show (s.live.remove rkey).get? idx = _
    rw [HashMap.get?_remove]
    split
    · next hk =>
      rw [hempty hk.symm]
      rfl
    · exact hidx
  have hendless' : (s.exec (.DEL rkey)).1.deadline idx = none := by
    rw [Server.deadline_DEL, hendless, ite_self]
  show ((s.exec (.DEL rkey)).1.exec (.SREM idx key)).1.deadline k = _
  rw [Server.deadline_srem hidx' hendless', Server.deadline_DEL]

/-- A transaction of `delete` on the entry `__idx__` of an empty namespace
leaves every key. -/
theorem delete_index_spec {db : Db} {idx : String} (hidx : db.get? idx = none) :
    (Redis.pipe db (deleteCommands idx idx "__idx__")).2 = false ∧
      ∀ k, (Redis.pipe db (deleteCommands idx idx "__idx__")).1.get? k = db.get? k := by
  have hremoved : (db.remove idx).get? idx = none := HashMap.get?_remove_self db idx
  have hpipe : Redis.pipe db (deleteCommands idx idx "__idx__") = (db.remove idx, false) := by
    simp [deleteCommands, Redis.pipe, Redis.exec, hremoved]
  rw [hpipe]
  refine ⟨rfl, fun k => ?_⟩
  rw [HashMap.get?_remove]
  split
  · next hk => rw [hk, hidx]
  · rfl

theorem Represents.delete (h : Represents b m) {ns : Namespace} {key : String}
    (hp : Plain m.entries (.delete ns key)) :
    (b.call (.delete ns key)).2 = (m.call (.delete ns key)).2 ∧
      Represents (b.call (.delete ns key)).1 (m.call (.delete ns key)).1 := by
  obtain ⟨hlive, hfailed⟩ := Server.pipe_live b.conn
    (deleteCommands (redisKey b.pfx ns.name key) (indexKey b.pfx ns.name) key)
  have hsame : redisKey b.pfx ns.name key = indexKey b.pfx ns.name → m.entries.live ns = ∅ :=
    fun heq => hp ((redisKey_eq_indexKey_iff b.pfx ns ns key).mp heq).2
  have hdeadline := delete_deadline (h.index ns) (h.endless ns) hsame key
  have hspec : (Redis.pipe b.conn.live (deleteCommands (redisKey b.pfx ns.name key)
      (indexKey b.pfx ns.name) key)).2 = false ∧
      ∀ k', (Redis.pipe b.conn.live (deleteCommands (redisKey b.pfx ns.name key)
        (indexKey b.pfx ns.name) key)).1.get? k' =
        if k' = redisKey b.pfx ns.name key then none
        else if k' = indexKey b.pfx ns.name then setValue ((m.entries.live ns).erase key)
        else b.conn.live.get? k' := by
    by_cases hk : key = "__idx__"
    · have hidx := h.index ns
      rw [hp hk] at hidx
      rw [hk, ← indexKey_eq]
      obtain ⟨hreply, hget⟩ := delete_index_spec hidx
      refine ⟨hreply, fun k' => ?_⟩
      rw [hget]
      split
      · next hk' =>
        rw [hk']
        exact hidx
      · rfl
    · exact delete_spec (h.index ns) hk
  obtain ⟨hreply, hget⟩ := hspec
  constructor
  · simp only [call, hfailed, hreply, ExpiringBackend.call]
    rfl
  refine ⟨?_, fun ns' key' hk' => ?_, fun ns' key' hk' => ?_, fun ns' => ?_, fun ns' => ?_,
    fun ns' => ?_⟩
  · rw [ExpiringBackend.now_call]
    exact (Server.now_pipe _ _).trans h.now
  · show (b.conn.pipe _).1.live.get? (redisKey b.pfx ns'.name key') = _
    rw [hlive, hget, ExpiringBackend.get_delete, h.entry ns' key' hk']
    simp only [redisKey_inj, redisKey_ne_indexKey b.pfx ns' ns hk', if_false]
    split <;> rfl
  · show (b.conn.pipe _).1.deadline (redisKey b.pfx ns'.name key') = _
    rw [hdeadline, ExpiringBackend.deadline_delete, h.deadline ns' key' hk']
    simp only [redisKey_inj]
  · show (b.conn.pipe _).1.live.get? (indexKey b.pfx ns'.name) = setValue
      ((m.entries.delete ns.name key).live ns')
    rw [hlive, hget, InMemoryBackend.live_delete, h.index]
    by_cases hn : ns' = ns
    · subst hn
      rw [if_pos rfl, if_pos rfl]
      split
      · next heq =>
        rw [hsame heq.symm]
        rfl
      · rfl
    · have hother : indexKey b.pfx ns'.name ≠ redisKey b.pfx ns.name key := by
        intro heq
        exact hn ((redisKey_eq_indexKey_iff b.pfx ns ns' key).mp heq.symm).1.symm
      have hindexes : indexKey b.pfx ns'.name ≠ indexKey b.pfx ns.name := by
        intro heq
        rw [indexKey_eq b.pfx ns'.name, redisKey_eq_indexKey_iff] at heq
        exact hn heq.1
      rw [if_neg hother, if_neg hindexes, if_neg hn]
  · show (b.conn.pipe _).1.deadline (indexKey b.pfx ns'.name) = none
    rw [hdeadline, h.endless, ite_self]
  · show (m.entries.delete ns.name key).get ns'.name "__idx__" = none
    rw [InMemoryBackend.get_delete, h.noIndex, ite_self]

/-- **The simulation step**: a plain operation answers alike and keeps the
relation. -/
theorem Represents.call (h : Represents b m) {op : Op} (hp : Plain m.entries op) :
    (b.call op).2 = (m.call op).2 ∧ Represents (b.call op).1 (m.call op).1 := by
  cases op with
  | get ns key => exact h.get hp
  | set ns key v ttl => exact h.set hp
  | delete ns key => exact h.delete hp
  | keys ns => exact h.keys ns
  | touch ns key ttl => exact h.touch hp

end TimedRedisBackend

/-! ## Histories -/

def TimedRedisBackend.run (b : TimedRedisBackend) : List Event → TimedRedisBackend
  | [] => b
  | .call op :: events => (b.call op).1.run events
  | .elapse ms :: events => (b.elapse ms).run events

/-- Every call of the history is plain where it is made. -/
def InMemoryBackend.AllPlain : InMemoryBackend → List Event → Prop
  | _, [] => True
  | m, .call op :: events =>
    RedisBackend.Plain m op ∧ InMemoryBackend.AllPlain (m.call op).1 events
  | m, .elapse _ :: events => InMemoryBackend.AllPlain m events

theorem InMemoryBackend.AllPlain.left {m : InMemoryBackend} {events later : List Event}
    (h : m.AllPlain (events ++ later)) : m.AllPlain events := by
  induction events generalizing m with
  | nil => trivial
  | cons event events ih =>
    cases event with
    | call op => exact ⟨h.1, ih h.2⟩
    | elapse ms =>
      have hrest : m.AllPlain (events ++ later) := h
      exact ih hrest

namespace TimedRedisBackend

open Redis RedisBackend

variable {b : TimedRedisBackend} {m : ExpiringBackend}

theorem Represents.run (h : Represents b m) {events : List Event}
    (hplain : m.entries.AllPlain events) : Represents (b.run events) (m.run events) := by
  induction events generalizing b m with
  | nil => exact h
  | cons event events ih =>
    cases event with
    | call op =>
      refine ih (h.call hplain.1).2 ?_
      rw [ExpiringBackend.call_entries]
      exact hplain.2
    | elapse ms => exact ih (h.elapse ms) hplain

/-- **Lifetimes only take away.** After any history of plain calls with time
passing between them, Redis answers a plain call as the in-memory backend does,
which ignores lifetimes, unless the call is about one entry and that has
expired: then it answers that there is none. An entry that is not there stays
away, whatever is called, until it is written. -/
theorem lifetimes_only_take_away (pfx : Option String) {events : List Event}
    (h : InMemoryBackend.new.AllPlain events) :
    (∀ op, Plain (InMemoryBackend.new.run events) op →
      (((⟨Server.new, pfx⟩ : TimedRedisBackend).run events).call op).2 =
        if (ExpiringBackend.new.run events).lost op then
          ExpiringBackend.gone op ((InMemoryBackend.new.run events).call op).2
        else ((InMemoryBackend.new.run events).call op).2) ∧
    ∀ (before later : List Event) (ns : Namespace) (key : String),
      events = before ++ later → key ≠ "__idx__" →
      (((⟨Server.new, pfx⟩ : TimedRedisBackend).run before).call (.get ns key)).2 =
        .value none →
      (∀ event ∈ later, ExpiringBackend.Spares ns key event) →
      (((⟨Server.new, pfx⟩ : TimedRedisBackend).run events).call (.get ns key)).2 =
        .value none := by
  have hrun := (represents_new pfx).run h
  have hentries : (ExpiringBackend.new.run events).entries = InMemoryBackend.new.run events :=
    ExpiringBackend.run_entries ExpiringBackend.new events
  constructor
  · intro op hop
    rw [← hentries] at hop
    rw [(hrun.call hop).1, ExpiringBackend.call_output, hentries]
  · intro before later ns key hsplit hk habsent hspares
    have hplain : ∀ m : ExpiringBackend, Plain m.entries (.get ns key) :=
      fun _ hidx => absurd hidx hk
    have hbefore := (represents_new pfx).run (InMemoryBackend.AllPlain.left (hsplit ▸ h))
    rw [(hbefore.get (hplain _)).1] at habsent
    injection habsent with habsent
    have hstays := ExpiringBackend.get_run_of_absent habsent hspares
    rw [← ExpiringBackend.run_append, ← hsplit] at hstays
    rw [(hrun.get (hplain _)).1]
    exact congrArg Output.value hstays

/-- A lifetime of 1.9 seconds is one second, and arming the entry afterwards is
too late. -/
def lapsedSession : List Event :=
  [.call (.set NS_SESSIONS "s" [1] (some 1900000000)), .elapse 1001,
    .call (.touch NS_SESSIONS "s" 60000000000)]

theorem lapsed_session_is_listed :
    (((⟨Server.new, none⟩ : TimedRedisBackend).run lapsedSession).call (.get NS_SESSIONS "s")).2 =
        .value none ∧
      (((⟨Server.new, none⟩ : TimedRedisBackend).run lapsedSession).call (.keys NS_SESSIONS)).2 =
        .keys {"s"} := by
  have hplain : InMemoryBackend.new.AllPlain lapsedSession := by
    refine ⟨?_, ?_, trivial⟩
    · decide
    · decide
  have hanswer := (lifetimes_only_take_away none hplain).1
  constructor
  · rw [hanswer (.get NS_SESSIONS "s") (by decide)]
    decide
  · rw [hanswer (.keys NS_SESSIONS) trivial]
    decide

end TimedRedisBackend

end McpFramework
