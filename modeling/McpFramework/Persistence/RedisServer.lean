import McpFramework.Lib.Deadlines
import McpFramework.Persistence.Refinement

/-!
# Persistence — RedisServer

The Redis backend over a server whose keys expire.

The server drops a key whose deadline has passed, and a command at one moment
is the untimed command on the keys that are left (`live_exec`); so is a call of
the backend (`call_untimed`).
-/

namespace McpFramework

open Lib

/-! ## The server and its clock -/

namespace Redis

/-- The key space, the deadlines of its keys and the clock, both in
milliseconds. -/
structure Server where
  db : Db
  expires : HashMap String Nat
  now : Nat

namespace Server

def new : Server := ⟨HashMap.empty, HashMap.empty, 0⟩

def expired (s : Server) (k : String) : Bool := Deadline.past s.now (s.expires.get? k)

/-- The keys that are left. -/
def live (s : Server) : Db := s.db.retain fun k _ => !s.expired k

def elapse (s : Server) (ms : Nat) : Server := { s with now := s.now + ms }

/-- The deadlines after a command: a key that is gone, or was made anew, has
none. -/
def nextExpires (s : Server) (db : Db) (c : Command) : HashMap String Nat :=
  let kept := s.expires.retain fun k _ => s.live.containsKey k && db.containsKey k
  match c with
  | .SET k _ => kept.remove k
  | .EXPIRE k secs =>
    if s.live.containsKey k then kept.insert k (s.now + secs * 1000) else kept
  | _ => kept

def exec (s : Server) (c : Command) : Server × Reply :=
  let r := Redis.exec s.live c
  ({ s with db := r.1, expires := s.nextExpires r.1 c }, r.2)

/-- A transaction: all commands, and whether one of them failed. -/
def pipe (s : Server) : List Command → Server × Bool
  | [] => (s, false)
  | c :: cs =>
    let r := s.exec c
    let rest := pipe r.1 cs
    (rest.1, decide (r.2 = .wrongType) || rest.2)

/-- The deadline of a key that is left. -/
def deadline (s : Server) (k : String) : Option Nat :=
  if s.live.containsKey k then s.expires.get? k else none

/-- The deadline of a key that a command leaves. -/
def deadlineAfter (s : Server) (c : Command) (k : String) : Option Nat :=
  match c with
  | .SET k' _ => if k = k' then none else s.deadline k
  | .EXPIRE k' secs =>
    if k = k' ∧ s.live.containsKey k' = true then some (s.now + secs * 1000) else s.deadline k
  | _ => s.deadline k

variable {s : Server} {c : Command} {k : String}

theorem live_get? (s : Server) (k : String) :
    s.live.get? k = Deadline.read s.now (s.expires.get? k) (s.db.get? k) := by
  rw [live, HashMap.get?_retain, Deadline.read]
  show _ = if s.expired k then none else s.db.get? k
  cases s.expired k <;> cases s.db.get? k <;> rfl

theorem expired_of_containsKey (h : s.live.containsKey k = true) : s.expired k = false := by
  cases hk : s.expired k with
  | false => rfl
  | true =>
    unfold HashMap.containsKey at h
    rw [live_get?, Deadline.read_of_past hk] at h
    cases h

theorem deadline_eq (s : Server) (k : String) :
    s.deadline k = Deadline.left s.now (s.expires.get? k) (s.db.get? k) := by
  unfold deadline HashMap.containsKey
  rw [live_get?]
  rfl

/-- The deadlines that a command keeps. -/
theorem kept_get? (db : Db) (k : String) :
    (s.expires.retain fun k _ => s.live.containsKey k && db.containsKey k).get? k =
      if db.containsKey k then s.deadline k else none := by
  rw [HashMap.get?_retain, deadline]
  cases s.live.containsKey k <;> cases db.containsKey k <;> cases s.expires.get? k <;> rfl

theorem nextExpires_get? (s : Server) (db : Db) (c : Command) {k : String}
    (h : db.containsKey k = true) :
    (s.nextExpires db c).get? k = s.deadlineAfter c k := by
  have hkept := kept_get? (s := s) db k
  rw [if_pos h] at hkept
  unfold nextExpires
  cases c with
  | SET k' v =>
    show (HashMap.remove _ k').get? k = _
    rw [HashMap.get?_remove, hkept]
    rfl
  | EXPIRE k' secs =>
    show (if s.live.containsKey k' = true then _ else _ : HashMap String Nat).get? k = _
    by_cases hlive : s.live.containsKey k' = true
    · rw [if_pos hlive, HashMap.get?_insert, hkept]
      simp [deadlineAfter, hlive]
    · rw [if_neg hlive, hkept]
      simp [deadlineAfter, hlive]
  | _ => exact hkept

/-- A key that is left has not reached its deadline. -/
theorem now_le_deadline {d : Nat} (h : s.deadline k = some d) : s.now ≤ d := by
  unfold deadline at h
  split at h
  · next hk => exact Deadline.le_of_not_past (expired_of_containsKey hk) h
  · cases h

theorem now_le_deadlineAfter {d : Nat} (h : s.deadlineAfter c k = some d) : s.now ≤ d := by
  cases c with
  | SET k' v =>
    by_cases hk : k = k'
    · simp [deadlineAfter, hk] at h
    · simp only [deadlineAfter, hk, if_false] at h
      exact now_le_deadline h
  | EXPIRE k' secs =>
    by_cases hk : k = k' ∧ s.live.containsKey k' = true
    · simp only [deadlineAfter, hk, and_self, if_true, Option.some.injEq] at h
      omega
    · simp only [deadlineAfter, hk, if_false] at h
      exact now_le_deadline h
  | _ => exact now_le_deadline h

/-- A command leaves no key with a deadline in the past. -/
theorem expired_exec (h : (Redis.exec s.live c).1.containsKey k = true) :
    (s.exec c).1.expired k = false := by
  show Deadline.past s.now ((s.nextExpires (Redis.exec s.live c).1 c).get? k) = false
  rw [nextExpires_get? s _ c h]
  exact Deadline.not_past_of_le fun d hd => now_le_deadlineAfter hd

/-- **A command at one moment is the untimed command** on the keys that are
left. -/
theorem live_exec (s : Server) (c : Command) : (s.exec c).1.live = (Redis.exec s.live c).1 := by
  refine AList.ext (List.filter_eq_self.mpr fun e he => ?_)
  have hmem : (Redis.exec s.live c).1.containsKey e.1 = true := by
    have hget := (HashMap.mem_entries_iff (Redis.exec s.live c).1 e.1 e.2).mp he
    unfold HashMap.containsKey
    rw [hget]
    rfl
  show (!(s.exec c).1.expired e.1) = true
  rw [expired_exec hmem]
  rfl

theorem deadline_exec (h : (Redis.exec s.live c).1.containsKey k = true) :
    (s.exec c).1.deadline k = s.deadlineAfter c k := by
  rw [deadline, live_exec, if_pos h]
  exact nextExpires_get? s _ c h

/-- What is gone has no deadline. -/
theorem deadline_of_absent (h : s.live.get? k = none) : s.deadline k = none := by
  have hk : s.live.containsKey k = false := by
    unfold HashMap.containsKey
    rw [h]
    rfl
  rw [deadline, hk]
  rfl

theorem deadline_exec_of
    (h : (Redis.exec s.live c).1.get? k = none → s.deadlineAfter c k = none) :
    (s.exec c).1.deadline k = s.deadlineAfter c k := by
  cases hk : (Redis.exec s.live c).1.get? k with
  | none =>
    rw [h hk]
    refine deadline_of_absent ?_
    rw [live_exec]
    exact hk
  | some v =>
    refine deadline_exec ?_
    unfold HashMap.containsKey
    rw [hk]
    rfl

section Commands

variable {ms : Finset String} {idx : String}

theorem deadline_sadd (hidx : s.live.get? idx = setValue ms) (m k : String) :
    (s.exec (.SADD idx m)).1.deadline k = s.deadline k := by
  refine deadline_exec_of fun habsent => ?_
  rw [sadd_get? hidx] at habsent
  split at habsent
  · rw [RedisBackend.setValue_of_ne (Finset.insert_ne_empty m ms)] at habsent
    cases habsent
  · exact deadline_of_absent habsent

theorem deadline_srem (hidx : s.live.get? idx = setValue ms) (hdeadline : s.deadline idx = none)
    (m k : String) : (s.exec (.SREM idx m)).1.deadline k = s.deadline k := by
  refine deadline_exec_of fun habsent => ?_
  rw [srem_get? hidx] at habsent
  split at habsent
  · next hk =>
    rw [hk]
    exact hdeadline
  · exact deadline_of_absent habsent

theorem deadline_SET (s : Server) (k' : String) (v : List UInt8) (k : String) :
    (s.exec (.SET k' v)).1.deadline k = if k = k' then none else s.deadline k := by
  refine deadline_exec_of fun habsent => ?_
  rw [exec_SET, HashMap.get?_insert] at habsent
  split at habsent
  · cases habsent
  · next hk =>
    simp only [deadlineAfter, hk, if_false]
    exact deadline_of_absent habsent

theorem deadline_DEL (s : Server) (k' k : String) :
    (s.exec (.DEL k')).1.deadline k = if k = k' then none else s.deadline k := by
  have hget : (Redis.exec s.live (.DEL k')).1.get? k = if k = k' then none else s.live.get? k :=
    HashMap.get?_remove s.live k' k
  by_cases hk : k = k'
  · rw [if_pos hk] at hget ⊢
    refine deadline_of_absent ?_
    rw [live_exec]
    exact hget
  · rw [if_neg hk] at hget ⊢
    refine deadline_exec_of fun habsent => ?_
    rw [hget] at habsent
    exact deadline_of_absent habsent

theorem deadline_EXPIRE (s : Server) (k' : String) (secs : Nat) (k : String) :
    (s.exec (.EXPIRE k' secs)).1.deadline k =
      if k = k' ∧ s.live.containsKey k' = true then some (s.now + secs * 1000)
      else s.deadline k := by
  refine deadline_exec_of fun habsent => ?_
  rw [exec_EXPIRE] at habsent
  have hnot : ¬ (k = k' ∧ s.live.containsKey k' = true) := by
    intro h
    have hlive := h.2
    unfold HashMap.containsKey at hlive
    rw [← h.1, habsent] at hlive
    cases hlive
  simp only [deadlineAfter, hnot, if_false]
  exact deadline_of_absent habsent

end Commands

theorem pipe_live (s : Server) (cs : List Command) :
    (s.pipe cs).1.live = (Redis.pipe s.live cs).1 ∧ (s.pipe cs).2 = (Redis.pipe s.live cs).2 := by
  induction cs generalizing s with
  | nil => exact ⟨rfl, rfl⟩
  | cons c cs ih =>
    obtain ⟨hlive, hfailed⟩ := ih (s.exec c).1
    rw [live_exec] at hlive hfailed
    refine ⟨hlive, ?_⟩
    show (decide ((s.exec c).2 = .wrongType) || ((s.exec c).1.pipe cs).2) = _
    rw [hfailed]
    rfl

@[simp] theorem now_exec (s : Server) (c : Command) : (s.exec c).1.now = s.now := rfl

@[simp] theorem now_pipe (s : Server) (cs : List Command) : (s.pipe cs).1.now = s.now := by
  induction cs generalizing s with
  | nil => rfl
  | cons c cs ih => exact ih (s.exec c).1

/-- Time takes away what has passed its deadline. -/
theorem elapse_get? (s : Server) (ms : Nat) (k : String) :
    (s.elapse ms).live.get? k = Deadline.read (s.now + ms) (s.deadline k) (s.live.get? k) := by
  rw [live_get?, live_get?, deadline_eq]
  exact Deadline.read_later (Nat.le_add_right s.now ms) _ _

theorem elapse_deadline (s : Server) (ms : Nat) (k : String) :
    (s.elapse ms).deadline k = Deadline.left (s.now + ms) (s.deadline k) (s.live.get? k) := by
  rw [deadline_eq, deadline_eq, live_get?]
  exact Deadline.left_later (Nat.le_add_right s.now ms) _ _

end Server
end Redis

/-! ## The backend over it -/

structure TimedRedisBackend where
  conn : Redis.Server
  pfx : Option String

namespace TimedRedisBackend

open Redis RedisBackend

def call (b : TimedRedisBackend) : Op → TimedRedisBackend × Output
  | .get ns key =>
    let r := b.conn.exec (.GET (redisKey b.pfx ns.name key))
    ({ b with conn := r.1 },
      match r.2 with
      | .bulk v => .value (some v)
      | .nil => .value none
      | _ => .error)
  | .set ns key value ttl =>
    let r := b.conn.pipe
      (setCommands (redisKey b.pfx ns.name key) (indexKey b.pfx ns.name) key value ttl)
    ({ b with conn := r.1 }, if r.2 then .error else .unit)
  | .delete ns key =>
    let r := b.conn.pipe
      (deleteCommands (redisKey b.pfx ns.name key) (indexKey b.pfx ns.name) key)
    ({ b with conn := r.1 }, if r.2 then .error else .unit)
  | .keys ns =>
    let r := b.conn.exec (.SMEMBERS (indexKey b.pfx ns.name))
    ({ b with conn := r.1 },
      match r.2 with
      | .members ms => .keys ms
      | _ => .error)
  | .touch ns key ttl =>
    let r := b.conn.exec (.EXPIRE (redisKey b.pfx ns.name key) (expireSecs ttl))
    ({ b with conn := r.1 },
      match r.2 with
      | .int armed => .touch (if armed = 1 then .Armed else .Missing)
      | _ => .error)

def elapse (b : TimedRedisBackend) (ms : Nat) : TimedRedisBackend :=
  { b with conn := b.conn.elapse ms }

/-- The backend on the keys that are left, as if no time were to pass. -/
def untimed (b : TimedRedisBackend) : RedisBackend := ⟨b.conn.live, b.pfx⟩

theorem call_untimed (b : TimedRedisBackend) (op : Op) :
    (b.call op).1.untimed = (b.untimed.call op).1 ∧ (b.call op).2 = (b.untimed.call op).2 := by
  cases op with
  | get ns key => exact ⟨congrArg (RedisBackend.mk · b.pfx) (Server.live_exec _ _), rfl⟩
  | keys ns => exact ⟨congrArg (RedisBackend.mk · b.pfx) (Server.live_exec _ _), rfl⟩
  | touch ns key ttl => exact ⟨congrArg (RedisBackend.mk · b.pfx) (Server.live_exec _ _), rfl⟩
  | set ns key v ttl =>
    obtain ⟨hlive, hfailed⟩ := Server.pipe_live b.conn
      (setCommands (redisKey b.pfx ns.name key) (indexKey b.pfx ns.name) key v ttl)
    refine ⟨congrArg (RedisBackend.mk · b.pfx) hlive, ?_⟩
    show (if (b.conn.pipe _).2 = true then Output.error else .unit) = _
    rw [hfailed]
    rfl
  | delete ns key =>
    obtain ⟨hlive, hfailed⟩ := Server.pipe_live b.conn
      (deleteCommands (redisKey b.pfx ns.name key) (indexKey b.pfx ns.name) key)
    refine ⟨congrArg (RedisBackend.mk · b.pfx) hlive, ?_⟩
    show (if (b.conn.pipe _).2 = true then Output.error else .unit) = _
    rw [hfailed]
    rfl

end TimedRedisBackend

end McpFramework
