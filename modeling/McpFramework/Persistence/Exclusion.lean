import McpFramework.Lib.Lease
import McpFramework.Persistence.Lock
import McpFramework.Persistence.Redis

/-!
# Persistence — Exclusion

`try_acquire_lock` and `release_lock` of both backends as stores of leases: a
table of locks under a guard in memory (`persistence.rs`), and `SET NX PX` with a
compare-and-delete script on a Redis server (`persistence_redis.rs`).

The in-memory call reads its clock before it waits for the guard, so it may judge
by an earlier time than that of its effect. Redis judges by the server's clock in
whole milliseconds. An answer of `none` is a panic or an error.
-/

namespace McpFramework

open Lib

/-! ## In memory -/

/-- The `locks` of the backend. -/
abbrev InMemoryLocks := HashMap (String × String) (LockEntry String)

namespace InMemoryLocks

def insertLock (locks : InMemoryLocks) (k : String × String) (token : String) (now ttl : Nat) :
    InMemoryLocks × Option Bool :=
  match Instant.add now ttl with
  | some expiry => (locks.insert k (token, expiry), some true)
  | none => (locks, none)

def tryAcquireLock (locks : InMemoryLocks) (now : Nat) (k : String × String) (token : String)
    (ttl : Nat) : InMemoryLocks × Option Bool :=
  match locks.get? k with
  | some (_, expiry) =>
    if expiry > now then (locks, some false) else insertLock locks k token now ttl
  | none => insertLock locks k token now ttl

def releaseLock (locks : InMemoryLocks) (k : String × String) (token : String) : InMemoryLocks :=
  match locks.get? k with
  | some (held, _) => if held = token then locks.remove k else locks
  | none => locks

variable {locks : InMemoryLocks} {now ttl : Nat} {k : String × String} {token : String}

/-- A call goes through the table or leaves it. -/
theorem tryAcquireLock_cases (locks : InMemoryLocks) (now : Nat) (k : String × String)
    (token : String) (ttl : Nat) :
    ((∀ owner expiry, locks.get? k = some (owner, expiry) → expiry ≤ now) ∧
        tryAcquireLock locks now k token ttl = (locks.insert k (token, now + ttl), some true)) ∨
      ∃ answer, answer ≠ some true ∧ tryAcquireLock locks now k token ttl = (locks, answer) := by
  have hinsert : insertLock locks k token now ttl =
        (locks.insert k (token, now + ttl), some true) ∨
      insertLock locks k token now ttl = (locks, none) := by
    unfold insertLock Instant.add
    split
    · rename_i h
      split at h <;> simp_all
    · exact .inr rfl
  rw [tryAcquireLock]
  cases hk : locks.get? k with
  | none =>
    rcases hinsert with hinsert | hinsert
    · exact .inl ⟨by simp, hinsert⟩
    · exact .inr ⟨none, by simp, hinsert⟩
  | some e =>
    obtain ⟨owner, expiry⟩ := e
    dsimp only
    split
    · exact .inr ⟨some false, by simp, rfl⟩
    · rename_i hexpired
      rcases hinsert with hinsert | hinsert
      · refine .inl ⟨fun owner' expiry' h => ?_, hinsert⟩
        cases h
        exact Nat.le_of_not_lt hexpired
      · exact .inr ⟨none, by simp, hinsert⟩

/-- The table keeps one lock for each key, each of them as `Persistence.Lock`
has it. -/
theorem get?_releaseLock (locks : InMemoryLocks) (k k' : String × String) (token : String) :
    (locks.releaseLock k token).get? k' =
      if k' = k then McpFramework.releaseLock (locks.get? k) token else locks.get? k' := by
  rw [releaseLock]
  cases hk : locks.get? k with
  | none => by_cases h : k' = k <;> simp [h, hk, McpFramework.releaseLock]
  | some e =>
    obtain ⟨owner, expiry⟩ := e
    by_cases howner : owner = token
    · simp [howner, HashMap.get?_remove, McpFramework.releaseLock]
    · by_cases h : k' = k <;> simp [h, hk, howner, McpFramework.releaseLock]

theorem get?_tryAcquireLock (locks : InMemoryLocks) (now : Nat) (k k' : String × String)
    (token : String) {ttl : Nat} (h : (Instant.add now ttl).isSome = true) :
    (locks.tryAcquireLock now k token ttl).1.get? k' =
        (if k' = k then (McpFramework.tryAcquireLock (locks.get? k) now token ttl).1
          else locks.get? k') ∧
      (locks.tryAcquireLock now k token ttl).2 =
        some (McpFramework.tryAcquireLock (locks.get? k) now token ttl).2 := by
  have hadd : Instant.add now ttl = some (now + ttl) := by
    unfold Instant.add at h ⊢
    split at h
    · exact if_pos ‹_›
    · cases h
  rw [tryAcquireLock, insertLock, hadd]
  cases hk : locks.get? k with
  | none => simp [McpFramework.tryAcquireLock, HashMap.get?_insert]
  | some e =>
    obtain ⟨owner, expiry⟩ := e
    by_cases hlive : expiry > now
    · by_cases h : k' = k <;> simp [h, hk, hlive, McpFramework.tryAcquireLock]
    · simp [hlive, McpFramework.tryAcquireLock, HashMap.get?_insert]

/-- The lock table as a store of leases. -/
def leases : LeaseStore InMemoryLocks (String × String) (String × String) String where
  slot k := k
  entry locks k := locks.get? k
  deadline _ readAt ttl := readAt + ttl
  acquire locks _ readAt k token ttl := locks.tryAcquireLock readAt k token ttl
  release locks _ k token := locks.releaseLock k token

theorem acquire_outcome (locks : InMemoryLocks) (now readAt : Nat) (k : String × String)
    (token : String) (ttl : Nat) :
    ((leases.acquire locks now readAt k token ttl).2 = some true →
        leases.Grants locks now readAt k token ttl (leases.acquire locks now readAt k token ttl).1) ∧
      ((leases.acquire locks now readAt k token ttl).2 ≠ some true →
        (leases.acquire locks now readAt k token ttl).1 = locks) := by
  apply LeaseStore.acquire_outcome
  rcases tryAcquireLock_cases locks readAt k token ttl with ⟨hfree, heq⟩ | hleft
  · refine .inl ⟨_, ⟨fun hread owner d hentry => ?_, fun r => ?_⟩, heq⟩
    · exact Nat.le_trans (hfree owner d hentry) hread
    · exact HashMap.get?_insert locks k r (token, readAt + ttl)
  · exact .inr hleft

theorem lawful : LeaseStore.Lawful leases where
  acquire_free locks now readAt k token ttl hread hgranted :=
    ((acquire_outcome locks now readAt k token ttl).1 hgranted).free hread
  acquire_entry locks now readAt k token ttl hgranted :=
    ((acquire_outcome locks now readAt k token ttl).1 hgranted).entry
  acquire_refused locks now readAt k token ttl hrefused :=
    (acquire_outcome locks now readAt k token ttl).2 hrefused
  release_keeps locks now k token r owner d hentry hnot := by
    show (locks.releaseLock k token).get? r = _
    rw [get?_releaseLock]
    split
    · subst r
      rw [show locks.get? k = some (owner, d) from hentry]
      exact if_neg fun howner => hnot ⟨rfl, howner⟩
    · exact hentry
  release_adds locks now k token r e hentry := by
    change (locks.releaseLock k token).get? r = _ at hentry
    show locks.get? r = some e
    rw [get?_releaseLock] at hentry
    split at hentry
    · subst r
      cases hk : locks.get? k with
      | none => simp [hk, McpFramework.releaseLock] at hentry
      | some e' =>
        obtain ⟨owner, d⟩ := e'
        by_cases howner : owner = token <;>
          simp_all [McpFramework.releaseLock]
    · exact hentry
  release_frees locks now k token d hentry := by
    change (locks.releaseLock k token).get? k = _ at hentry
    rw [get?_releaseLock, if_pos rfl] at hentry
    cases hk : locks.get? k with
    | none => simp [hk, McpFramework.releaseLock] at hentry
    | some e' =>
      obtain ⟨owner, d'⟩ := e'
      by_cases howner : owner = token <;> simp_all [McpFramework.releaseLock]

end InMemoryLocks

/-! ## Redis -/

namespace Redis

/-- The string keys with an expiry, in milliseconds of the server's clock. -/
abbrev LockDb := HashMap String (String × Nat)

inductive SetReply where
  | ok
  | nil
  | error
deriving DecidableEq

/-- What a command sees: an expired key is gone. -/
def live (db : LockDb) (nowMs : Nat) (k : String) : Option (String × Nat) :=
  (db.get? k).filter fun e => nowMs < e.2

/-- `SET k v NX PX ms`. An expire time that is zero, or ends beyond `i64`, is an
error. -/
def setNxPx (db : LockDb) (nowMs : Nat) (k v : String) (ms : Nat) : LockDb × SetReply :=
  if ms = 0 ∨ nowMs + ms > i64Max then (db, .error)
  else
    match live db nowMs k with
    | some _ => (db, .nil)
    | none => (db.insert k (v, nowMs + ms), .ok)

/-- `RELEASE_LUA`: `get`, compare, `del`. -/
def releaseScript (db : LockDb) (nowMs : Nat) (k token : String) : LockDb :=
  match live db nowMs k with
  | some (held, _) => if held = token then db.remove k else db
  | none => db

theorem live_eq_none_iff {db : LockDb} {nowMs : Nat} {k : String} :
    live db nowMs k = none ↔ ∀ v ms, db.get? k = some (v, ms) → ms ≤ nowMs := by
  simp [live, Option.filter_eq_none_iff]

theorem live_eq_some {db : LockDb} {nowMs ms : Nat} {k v : String}
    (h : live db nowMs k = some (v, ms)) : db.get? k = some (v, ms) :=
  (Option.filter_eq_some_iff.mp h).1

end Redis

namespace RedisLocks

open Redis RedisBackend

/-- `ttl.as_millis().max(1) as u64`. -/
def ttlMs (ttl : Nat) : Nat := max (ttl / 1000000) 1 % 18446744073709551616

def tryAcquireLock (pfx : Option String) (db : LockDb) (nowMs : Nat) (k : String × String)
    (token : String) (ttl : Nat) : LockDb × Option Bool :=
  let r := setNxPx db nowMs (redisKey pfx k.1 k.2) token (ttlMs ttl)
  (r.1,
    match r.2 with
    | .ok => some true
    | .nil => some false
    | .error => none)

def releaseLock (pfx : Option String) (db : LockDb) (nowMs : Nat) (k : String × String)
    (token : String) : LockDb :=
  releaseScript db nowMs (redisKey pfx k.1 k.2) token

variable {pfx : Option String} {db : LockDb} {nowMs ttl : Nat} {k : String × String}
  {token : String}

theorem tryAcquireLock_cases (pfx : Option String) (db : LockDb) (nowMs : Nat)
    (k : String × String) (token : String) (ttl : Nat) :
    (live db nowMs (redisKey pfx k.1 k.2) = none ∧ tryAcquireLock pfx db nowMs k token ttl =
        (db.insert (redisKey pfx k.1 k.2) (token, nowMs + ttlMs ttl), some true)) ∨
      ∃ answer, answer ≠ some true ∧ tryAcquireLock pfx db nowMs k token ttl = (db, answer) := by
  rw [tryAcquireLock, setNxPx]
  split
  · exact .inr ⟨none, by simp, rfl⟩
  · cases hlive : live db nowMs (redisKey pfx k.1 k.2) with
    | none => exact .inl ⟨rfl, rfl⟩
    | some e => exact .inr ⟨some false, by simp, rfl⟩

/-- The server's keys as a store of leases, on a clock of nanoseconds. -/
def leases (pfx : Option String) : LeaseStore LockDb (String × String) String String where
  slot k := redisKey pfx k.1 k.2
  entry db r := (db.get? r).map fun e => (e.1, e.2 * 1000000)
  deadline now _ ttl := (now / 1000000 + ttlMs ttl) * 1000000
  acquire db now _ k token ttl := tryAcquireLock pfx db (now / 1000000) k token ttl
  release db now k token := releaseLock pfx db (now / 1000000) k token

/-- What is left after a release is what was there, and no longer live under the
token. -/
theorem get?_releaseLock (pfx : Option String) (db : LockDb) (nowMs : Nat) (k : String × String)
    (token r : String) :
    (releaseLock pfx db nowMs k token).get? r = db.get? r ∧
        ¬ (r = redisKey pfx k.1 k.2 ∧ ∃ ms, live db nowMs r = some (token, ms)) ∨
      (releaseLock pfx db nowMs k token).get? r = none ∧ r = redisKey pfx k.1 k.2 ∧
        ∃ ms, live db nowMs r = some (token, ms) := by
  rw [releaseLock, releaseScript]
  cases hlive : live db nowMs (redisKey pfx k.1 k.2) with
  | none =>
    refine .inl ⟨rfl, ?_⟩
    rintro ⟨rfl, ms, h⟩
    rw [hlive] at h
    cases h
  | some e =>
    obtain ⟨held, ms⟩ := e
    by_cases hheld : held = token
    · subst hheld
      by_cases hr : r = redisKey pfx k.1 k.2
      · subst hr
        exact .inr ⟨by simp, rfl, ms, hlive⟩
      · exact .inl ⟨by simp [HashMap.get?_remove, hr], fun h => hr h.1⟩
    · refine .inl ⟨by simp [hheld], ?_⟩
      rintro ⟨rfl, ms', h⟩
      rw [hlive] at h
      cases h
      exact hheld rfl

theorem acquire_outcome (pfx : Option String) (db : LockDb) (now readAt : Nat)
    (k : String × String) (token : String) (ttl : Nat) :
    (((leases pfx).acquire db now readAt k token ttl).2 = some true →
        (leases pfx).Grants db now readAt k token ttl
          ((leases pfx).acquire db now readAt k token ttl).1) ∧
      (((leases pfx).acquire db now readAt k token ttl).2 ≠ some true →
        ((leases pfx).acquire db now readAt k token ttl).1 = db) := by
  apply LeaseStore.acquire_outcome
  rcases tryAcquireLock_cases pfx db (now / 1000000) k token ttl with ⟨hfree, heq⟩ | hleft
  · refine .inl ⟨_, ⟨fun _ owner d hentry => ?_, fun r => ?_⟩, heq⟩
    · obtain ⟨⟨v, ms⟩, hget, he⟩ := Option.map_eq_some_iff.mp hentry
      cases he
      have hms := live_eq_none_iff.mp hfree v ms hget
      dsimp only
      omega
    · show ((db.insert _ _).get? r).map _ = _
      rw [HashMap.get?_insert]
      by_cases hr : r = redisKey pfx k.1 k.2 <;> simp [leases, hr]
  · exact .inr hleft

theorem lawful (pfx : Option String) : LeaseStore.Lawful (leases pfx) where
  acquire_free db now readAt k token ttl hread hgranted :=
    ((acquire_outcome pfx db now readAt k token ttl).1 hgranted).free hread
  acquire_entry db now readAt k token ttl hgranted :=
    ((acquire_outcome pfx db now readAt k token ttl).1 hgranted).entry
  acquire_refused db now readAt k token ttl hrefused :=
    (acquire_outcome pfx db now readAt k token ttl).2 hrefused
  release_keeps db now k token r owner d hentry hnot := by
    show ((releaseLock pfx db (now / 1000000) k token).get? r).map _ = _
    rcases get?_releaseLock pfx db (now / 1000000) k token r with ⟨hsame, -⟩ | ⟨-, hr, ms, hlive⟩
    · rw [hsame]
      exact hentry
    · obtain ⟨e, hget, he⟩ := Option.map_eq_some_iff.mp hentry
      rw [live_eq_some hlive] at hget
      cases hget
      cases he
      exact absurd ⟨hr, rfl⟩ hnot
  release_adds db now k token r e hentry := by
    change ((releaseLock pfx db (now / 1000000) k token).get? r).map _ = _ at hentry
    rcases get?_releaseLock pfx db (now / 1000000) k token r with ⟨hsame, -⟩ | ⟨hnone, -⟩
    · rw [hsame] at hentry
      exact hentry
    · rw [hnone] at hentry
      cases hentry
  release_frees db now k token d hentry := by
    change ((releaseLock pfx db (now / 1000000) k token).get? (redisKey pfx k.1 k.2)).map _ = _
      at hentry
    rcases get?_releaseLock pfx db (now / 1000000) k token (redisKey pfx k.1 k.2) with
      ⟨hsame, hnot⟩ | ⟨hnone, -⟩
    · rw [hsame] at hentry
      obtain ⟨⟨v, ms⟩, hget, he⟩ := Option.map_eq_some_iff.mp hentry
      cases he
      have hexpired : ¬ now / 1000000 < ms := fun hlt =>
        hnot ⟨rfl, ms, Option.filter_eq_some_iff.mpr ⟨hget, by simpa using hlt⟩⟩
      dsimp only
      omega
    · rw [hnone] at hentry
      cases hentry

end RedisLocks

/-! ## Exclusion -/

/-- **The distributed lock excludes.** In every run of acquires, releases and
waits, in memory and on Redis: a lock has one unexpired holder, no other acquire
of it is granted, and it ends only by running out or by a release under its
holder's token. On Redis the locks of two names are one exactly for equal names. -/
theorem lock_excludes (clock : Nat) :
    (∀ s, InMemoryLocks.leases.system.Reach (fun _ _ => True)
        (LeaseState.start clock HashMap.empty) s → InMemoryLocks.leases.Excludes s) ∧
    ∀ pfx, (∀ s, (RedisLocks.leases pfx).system.Reach (fun _ _ => True)
        (LeaseState.start clock HashMap.empty) s → (RedisLocks.leases pfx).Excludes s) ∧
      ∀ (ns ns' : Namespace) (key key' : String),
        (RedisLocks.leases pfx).slot (ns.name, key) = (RedisLocks.leases pfx).slot (ns'.name, key') ↔
          ns = ns' ∧ key = key' := by
  refine ⟨fun s hr => ?_, fun pfx => ⟨fun s hr => ?_, RedisBackend.redisKey_inj pfx⟩⟩
  · refine (LeaseStore.agrees_of_reach InMemoryLocks.lawful (fun r => ?_) hr).excludes
      InMemoryLocks.lawful
    exact HashMap.get?_empty r
  · refine (LeaseStore.agrees_of_reach (RedisLocks.lawful pfx) (fun r => ?_) hr).excludes
      (RedisLocks.lawful pfx)
    simp only [RedisLocks.leases, HashMap.get?_empty, Option.map_none]

/-- The late release of a former holder: `B` took the lock over and keeps it. -/
example :
    let calls : List (LeaseCall (String × String) String) :=
      [.acquire ("refresh_lock", "s1") "A" 30 0, .wait 50,
        .acquire ("refresh_lock", "s1") "B" 100 50, .release ("refresh_lock", "s1") "A"]
    (InMemoryLocks.leases.system.run (fun _ _ => True) (.start 0 HashMap.empty) calls).map
      (fun s => s.store.get? ("refresh_lock", "s1")) = some (some ("B", 150)) := by
  decide

end McpFramework
