import McpFramework.Lib.Mutex
import McpFramework.Lib.Transition
import McpFramework.Persistence.Lock

/-!
# Session — Protocol

`SessionStore` on any number of replicas over one backend (`session/mod.rs`),
cut at its awaits. The state holds what concerns one session: its persisted
record, its distributed lock, and each replica's cached entry and mutation lock.
Operations on other sessions share no more with these than the mutation lock,
and a task may wait for that one arbitrarily long here anyway.

Ghost state, which no section reads: how many removals of the session have taken
effect (`deletions`) and completed (`completed`), after how many removals a copy
of the data was written (`born`), and what was done with which data (`uses`,
`applied`).
-/

namespace McpFramework.Session

open Lib

variable {T : Type*}

/-! ## Data -/

structure SessionEntry (T : Type*) where
  data : T
  lastAccess : Nat
  /-- Ghost. -/
  born : Nat
deriving DecidableEq

structure PersistedSession (T : Type*) where
  data : T
  expiresAtUnixMs : Option Nat
  /-- Ghost. -/
  born : Nat
deriving DecidableEq

/-- A deadline that has passed, as `load_session_from_backend` finds it. -/
def PersistedSession.expired (p : PersistedSession T) (clock : Clock) : Bool :=
  match p.expiresAtUnixMs with
  | some deadline => decide (remainingUntilUnixMillis clock deadline = 0)
  | none => false

structure Replica (T : Type*) where
  entry : Option (SessionEntry T)
  mutationLock : Option Nat

inductive Op (T : Type*) where
  | get
  | getOrCreate
  | update (f : T → T)
  | remove

/-- Where an operation stands. `holding` says whether it has the distributed
lock; an operation that could not get it goes on without. -/
inductive Pc (T : Type*) where
  | idle
  | lockMutation
  | lockDist (deadline : Nat)
  | load (holding : Bool)
  | dropExpired (holding : Bool)
  | apply (holding : Bool) (loaded : Option (T × Nat))
  | persist (holding : Bool) (data : T) (born : Nat)
  | delete (holding : Bool)
  | unlock (holding : Bool)
  | done

structure Task (T : Type*) where
  replica : Nat
  op : Op T
  pc : Pc T
  /-- Ghost: the removals completed when the operation started. -/
  start : Nat
  /-- Ghost: the number of a removal, once it has taken effect. -/
  epoch : Nat

/-- Ghost: an operation wrote to the backend, or passed to its closure, data
that was written after `born` removals. -/
structure Use where
  start : Nat
  born : Nat
deriving DecidableEq

structure State (T : Type*) where
  clock : Clock
  record : Option (PersistedSession T)
  lock : Option (LockEntry Nat)
  replicas : Nat → Replica T
  tasks : Nat → Task T
  deletions : Nat
  completed : Nat
  uses : List Use
  /-- Ghost: the updates whose closure has run, in order. -/
  applied : List Nat

/-- What the backend makes of a call. -/
inductive Answer where
  | ok
  | err
deriving DecidableEq

inductive Label (T : Type*) where
  /-- `d` passes, after which the system clocks read `unix`. -/
  | tick (d unix : Nat)
  | call (t replica : Nat) (op : Op T)
  /-- Task `t` runs its next section. -/
  | run (t : Nat) (answer : Answer)
  /-- The backend drops the record at the end of its TTL. -/
  | lapse

def idleTask : Task T := { replica := 0, op := .get, pc := .idle, start := 0, epoch := 0 }

/-- Replicas that have just started, over whatever was persisted. -/
def init (clock : Clock) (record : Option (PersistedSession T)) : State T :=
  { clock := clock, record := record, lock := none
    replicas := fun _ => { entry := none, mutationLock := none }
    tasks := fun _ => idleTask
    deletions := 0, completed := 0, uses := [], applied := [] }

namespace State

def setTask (st : State T) (t : Nat) (task : Task T) : State T :=
  { st with tasks := Function.update st.tasks t task }

def goto (st : State T) (t : Nat) (pc : Pc T) : State T :=
  st.setTask t { st.tasks t with pc := pc }

def setReplica (st : State T) (r : Nat) (replica : Replica T) : State T :=
  { st with replicas := Function.update st.replicas r replica }

/-- The cache of the replica an operation runs on. -/
def cached (st : State T) (t : Nat) : Option (SessionEntry T) :=
  (st.replicas (st.tasks t).replica).entry

def setCached (st : State T) (t : Nat) (entry : Option (SessionEntry T)) : State T :=
  let r := (st.tasks t).replica
  st.setReplica r { st.replicas r with entry := entry }

end State

/-! ## The sections -/

section Sections

variable [Inhabited T] (ttl : Nat)

/-- The data an operation goes on with: the backend's, or the replica's own. -/
def source (loaded : Option (T × Nat)) (cached : Option (SessionEntry T)) : Option (T × Nat) :=
  loaded.or (cached.map fun e => (e.data, e.born))

/-- The memory section of each operation, and where it goes from there. -/
def applySection (st : State T) (t : Nat) (holding : Bool) (loaded : Option (T × Nat)) :
    State T :=
  let task := st.tasks t
  let source := source loaded (st.cached t)
  match task.op with
  | .update f =>
    let (data, born) := source.getD (default, st.deletions)
    let entry := { data := f data, lastAccess := st.clock.now, born := st.deletions }
    let st' := (st.setCached t (some entry)).goto t (.persist holding (f data) st.deletions)
    { st' with
      uses := { start := task.start, born := born } :: st.uses
      applied := st.applied ++ [t] }
  | .getOrCreate =>
    let (data, born) := source.getD (default, st.deletions)
    (st.setCached t (some { data := data, lastAccess := st.clock.now, born := born })).goto t
      (.persist holding data born)
  | .get =>
    match source with
    | some (data, born) =>
      (st.setCached t (some { data := data, lastAccess := st.clock.now, born := born })).goto t
        (.persist holding data born)
    | none => st.goto t (.unlock holding)
  | .remove =>
    let st' := (st.setCached t none).setTask t
      { task with
        pc := if source.isSome then .delete holding else .unlock holding
        epoch := st.deletions + 1 }
    { st' with deletions := st.deletions + 1 }

def runSection (st : State T) (t : Nat) (answer : Answer) : Option (State T) :=
  let task := st.tasks t
  match task.pc with
  | .idle => none
  | .lockMutation =>
    let replica := st.replicas task.replica
    match replica.mutationLock with
    | none =>
      some ((st.setReplica task.replica { replica with mutationLock := some t }).goto t
        (.lockDist (st.clock.now + SESSION_LOCK_WAIT)))
    | some _ => none
  | .lockDist deadline =>
    match answer with
    | .err => some (st.goto t (.load false))
    | .ok =>
      let r := tryAcquireLock st.lock st.clock.now t SESSION_LOCK_TTL
      if r.2 then some { st.goto t (.load true) with lock := r.1 }
      else if st.clock.now < deadline then some st
      else some (st.goto t (.load false))
  | .load holding =>
    match answer, st.record with
    | .ok, some p =>
      if p.expired st.clock then some (st.goto t (.dropExpired holding))
      else some (st.goto t (.apply holding (some (p.data, p.born))))
    | _, _ => some (st.goto t (.apply holding none))
  | .dropExpired holding =>
    let st' := st.goto t (.apply holding none)
    match answer with
    | .ok => some { st' with record := none }
    | .err => some st'
  | .apply holding loaded => some (applySection st t holding loaded)
  | .persist holding data born =>
    let st' := st.goto t (.unlock holding)
    match answer with
    | .ok =>
      some { st' with
        record := some { data := data, born := born,
                         expiresAtUnixMs :=
                           some (instantToUnixMillis st.clock (st.clock.now + ttl)) }
        uses := { start := task.start, born := born } :: st.uses }
    | .err => some st'
  | .delete holding =>
    let st' := st.goto t (.unlock holding)
    match answer with
    | .ok => some { st' with record := none }
    | .err => some st'
  | .unlock holding =>
    let replica := st.replicas task.replica
    let st' := (st.setReplica task.replica { replica with mutationLock := none }).goto t .done
    some { st' with
      lock := if holding && answer = .ok then releaseLock st.lock t else st.lock
      completed := max st.completed task.epoch }
  | .done => none

def step (st : State T) : Label T → Option (State T)
  | .tick d unix => some { st with clock := ⟨st.clock.now + d, unix⟩ }
  | .call t replica op =>
    match (st.tasks t).pc with
    | .idle =>
      some (st.setTask t
        { replica := replica, op := op, pc := .lockMutation, start := st.completed, epoch := 0 })
    | _ => none
  | .run t answer => runSection ttl st t answer
  | .lapse => some { st with record := none }

def system : System (State T) (Label T) := ⟨step ttl⟩

end Sections

/-! ## Runs of a reliable backend -/

/-- The backend answers every call, no attempt at the distributed lock is given
up on its deadline, and no lock runs out while it is held. -/
def reliable (st : State T) : Label T → Bool
  | .run t answer =>
    decide (answer = .ok) &&
      match (st.tasks t).pc with
      | .lockDist deadline =>
        !lapsed st.lock st.clock.now && (st.lock.isNone || decide (st.clock.now < deadline))
      | _ => true
  | _ => true

/-- The section the distributed lock protects. -/
def Pc.critical : Pc T → Bool
  | .load _ => true
  | .dropExpired _ => true
  | .apply _ _ => true
  | .persist _ _ _ => true
  | .delete _ => true
  | .unlock _ => true
  | _ => false

/-- Whether the section was entered with the lock. -/
def Pc.holds : Pc T → Bool
  | .load h => h
  | .dropExpired h => h
  | .apply h _ => h
  | .persist h _ _ => h
  | .delete h => h
  | .unlock h => h
  | _ => true

/-- The distributed lock excludes: whoever is in the section it protects holds
it. -/
structure Exclusive (st : State T) : Prop where
  guards : Guards (st.lock.map (·.1)) (fun task : Task T => task.pc.critical = true) st.tasks
  holds : ∀ t, (st.tasks t).pc.holds = true

/-! ## One section at a time

What a section can do, for a reliable backend: one case each, with the state it
leads to. -/

section Cases

variable {ttl : Nat} {st st' : State T} {t : Nat}

theorem run_ok {answer : Answer} (hr : reliable st (.run t answer) = true) : answer = .ok := by
  simp only [reliable, Bool.and_eq_true, decide_eq_true_eq] at hr
  exact hr.1

variable [Inhabited T]

/-- At the distributed lock a task enters with the free lock or stays. -/
theorem lockDist_cases {deadline : Nat} (hpc : (st.tasks t).pc = .lockDist deadline)
    (hr : reliable st (.run t .ok) = true) (hs : runSection ttl st t .ok = some st') :
    (st.lock = none ∧ st' = { st.goto t (.load true) with
        lock := some (t, st.clock.now + SESSION_LOCK_TTL) }) ∨ st' = st := by
  simp only [reliable, hpc, decide_true, Bool.true_and, Bool.and_eq_true, Bool.not_eq_true',
    Bool.or_eq_true, decide_eq_true_eq] at hr
  simp only [runSection, hpc] at hs
  rcases tryAcquireLock_cases hr.1 with ⟨hfree, hg⟩ | ⟨hheld, hg⟩
  · rw [hg] at hs
    simp only [if_true, Option.some.injEq] at hs
    exact .inl ⟨hfree, hs.symm⟩
  · rw [hg] at hs
    have hlt : st.clock.now < deadline := hr.2.resolve_left (by simpa using hheld)
    simp only [Bool.false_eq_true, if_false, hlt, if_true, Option.some.injEq] at hs
    exact .inr hs.symm

/-- The cases of the backend read. -/
theorem load_cases {holding : Bool} (hpc : (st.tasks t).pc = .load holding)
    (hs : runSection ttl st t .ok = some st') :
    (st.record = none ∧ st' = st.goto t (.apply holding none)) ∨
      ∃ p, st.record = some p ∧
        ((p.expired st.clock = true ∧ st' = st.goto t (.dropExpired holding)) ∨
          (p.expired st.clock = false ∧
            st' = st.goto t (.apply holding (some (p.data, p.born))))) := by
  simp only [runSection, hpc] at hs
  cases hrec : st.record with
  | none =>
    simp only [hrec, Option.some.injEq] at hs
    exact .inl ⟨rfl, hs.symm⟩
  | some p =>
    simp only [hrec] at hs
    cases hx : p.expired st.clock with
    | true =>
      simp only [hx, if_true, Option.some.injEq] at hs
      exact .inr ⟨p, rfl, .inl ⟨hx, hs.symm⟩⟩
    | false =>
      simp only [hx, Bool.false_eq_true, if_false, Option.some.injEq] at hs
      exact .inr ⟨p, rfl, .inr ⟨hx, hs.symm⟩⟩

/-- The cases of the memory section: a `get` that finds nothing; a read that
caches what it found or created and re-persists it; an update; a removal. -/
theorem applySection_cases (st : State T) (t : Nat) (holding : Bool)
    (loaded : Option (T × Nat)) :
    ((st.tasks t).op = .get ∧ source loaded (st.cached t) = none ∧
        applySection st t holding loaded = st.goto t (.unlock holding)) ∨
      (∃ data born,
        (((st.tasks t).op = .get ∧ source loaded (st.cached t) = some (data, born)) ∨
          ((st.tasks t).op = .getOrCreate ∧
            (source loaded (st.cached t)).getD (default, st.deletions) = (data, born))) ∧
        applySection st t holding loaded =
          (st.setCached t (some ⟨data, st.clock.now, born⟩)).goto t
            (.persist holding data born)) ∨
      (∃ f data born, (st.tasks t).op = .update f ∧
        (source loaded (st.cached t)).getD (default, st.deletions) = (data, born) ∧
        applySection st t holding loaded =
          { (st.setCached t (some ⟨f data, st.clock.now, st.deletions⟩)).goto t
              (.persist holding (f data) st.deletions) with
            uses := { start := (st.tasks t).start, born := born } :: st.uses,
            applied := st.applied ++ [t] }) ∨
      ((st.tasks t).op = .remove ∧
        applySection st t holding loaded =
          { (st.setCached t none).setTask t
              { st.tasks t with
                pc := if (source loaded (st.cached t)).isSome then .delete holding
                  else .unlock holding,
                epoch := st.deletions + 1 } with
            deletions := st.deletions + 1 }) := by
  obtain ⟨data, born, hd⟩ : ∃ data born,
      (source loaded (st.cached t)).getD (default, st.deletions) = (data, born) := ⟨_, _, rfl⟩
  cases hop : (st.tasks t).op with
  | get =>
    cases hsrc : source loaded (st.cached t) with
    | none => exact .inl ⟨rfl, rfl, by simp only [applySection, hop, hsrc]⟩
    | some d =>
      exact .inr (.inl ⟨d.1, d.2, .inl ⟨rfl, rfl⟩, by simp only [applySection, hop, hsrc]⟩)
  | getOrCreate =>
    exact .inr (.inl ⟨data, born, .inr ⟨rfl, hd⟩, by simp only [applySection, hop, hd]⟩)
  | update f =>
    exact .inr (.inr (.inl ⟨f, data, born, rfl, hd, by simp only [applySection, hop, hd]⟩))
  | remove => exact .inr (.inr (.inr ⟨rfl, by simp only [applySection, hop]⟩))

end Cases

/-! ## Exclusion -/

section Exclusion

variable {st st' : State T} {t : Nat} {task : Task T}

theorem exclusive_init (clock : Clock) (record : Option (PersistedSession T)) :
    Exclusive (init clock record) := by
  refine ⟨fun t => ?_, fun t => rfl⟩
  simp [init, idleTask, Pc.critical]

/-- Moves of one task that leave the distributed lock alone. -/
theorem Exclusive.move (h : Exclusive st) (htasks : st'.tasks = Function.update st.tasks t task)
    (hlock : st'.lock = st.lock) (hcrit : task.pc.critical = (st.tasks t).pc.critical)
    (hholds : task.pc.holds = true) : Exclusive st' := by
  refine ⟨?_, ?_⟩
  · rw [htasks, hlock]
    exact h.guards.move (by rw [hcrit])
  · rw [htasks]
    exact (forall_update_iff (P := fun _ (task : Task T) => task.pc.holds = true)).mpr
      ⟨hholds, fun u _ => h.holds u⟩

theorem Exclusive.enter (h : Exclusive st) (htasks : st'.tasks = Function.update st.tasks t task)
    (hfree : st.lock = none) (hlock : st'.lock.map (·.1) = some t)
    (hholds : task.pc.holds = true) : Exclusive st' := by
  have hg := h.guards
  rw [hfree] at hg
  refine ⟨?_, ?_⟩
  · rw [htasks, hlock]
    exact hg.enter
  · rw [htasks]
    exact (forall_update_iff (P := fun _ (task : Task T) => task.pc.holds = true)).mpr
      ⟨hholds, fun u _ => h.holds u⟩

theorem Exclusive.leave (h : Exclusive st) (htasks : st'.tasks = Function.update st.tasks t task)
    (hin : (st.tasks t).pc.critical = true) (hlock : st'.lock = none)
    (hcrit : task.pc.critical = false) (hholds : task.pc.holds = true) : Exclusive st' := by
  refine ⟨?_, ?_⟩
  · rw [htasks, hlock]
    exact h.guards.leave hin (by simp [hcrit])
  · rw [htasks]
    exact (forall_update_iff (P := fun _ (task : Task T) => task.pc.holds = true)).mpr
      ⟨hholds, fun u _ => h.holds u⟩

/-- Whoever is in the section is there alone. -/
theorem Exclusive.alone (h : Exclusive st) (ht : (st.tasks t).pc.critical = true) {u : Nat}
    (hne : u ≠ t) : (st.tasks u).pc.critical = false := by
  have := h.guards.outside_of_ne ht hne
  simpa using this

variable [Inhabited T]

theorem applySection_tasks (st : State T) (t : Nat) (holding : Bool)
    (loaded : Option (T × Nat)) :
    ∃ task, (applySection st t holding loaded).tasks = Function.update st.tasks t task ∧
      (applySection st t holding loaded).lock = st.lock ∧ task.pc.critical = true ∧
      task.pc.holds = holding := by
  rcases applySection_cases st t holding loaded with
    ⟨-, -, h⟩ | ⟨data, born, -, h⟩ | ⟨f, data, born, -, -, h⟩ | ⟨-, h⟩
  · rw [h]
    exact ⟨_, rfl, rfl, rfl, rfl⟩
  · rw [h]
    exact ⟨_, rfl, rfl, rfl, rfl⟩
  · rw [h]
    exact ⟨_, rfl, rfl, rfl, rfl⟩
  · rw [h]
    refine ⟨_, rfl, rfl, ?_, ?_⟩ <;> dsimp only <;> split <;> rfl

theorem Exclusive.run {ttl : Nat} {answer : Answer} (h : Exclusive st)
    (hr : reliable st (.run t answer) = true) (hs : runSection ttl st t answer = some st') :
    Exclusive st' := by
  have hok := run_ok hr
  subst hok
  have hholds := h.holds t
  cases hpc : (st.tasks t).pc with
  | idle => simp [runSection, hpc] at hs
  | done => simp [runSection, hpc] at hs
  | lockMutation =>
    simp only [runSection, hpc] at hs
    split at hs
    · cases hs
      exact h.move rfl rfl (by rw [hpc]; rfl) rfl
    · cases hs
  | lockDist deadline =>
    rcases lockDist_cases hpc hr hs with ⟨hfree, rfl⟩ | rfl
    · exact h.enter rfl hfree rfl rfl
    · exact h
  | load holding =>
    rw [hpc] at hholds
    rcases load_cases hpc hs with ⟨-, rfl⟩ | ⟨p, -, ⟨-, rfl⟩ | ⟨-, rfl⟩⟩ <;>
      exact h.move rfl rfl (by rw [hpc]; rfl) hholds
  | dropExpired holding | delete holding =>
    rw [hpc] at hholds
    simp only [runSection, hpc] at hs
    cases hs
    exact h.move rfl rfl (by rw [hpc]; rfl) hholds
  | apply holding loaded =>
    rw [hpc] at hholds
    simp only [runSection, hpc] at hs
    cases hs
    obtain ⟨task, htasks, hlock, hcrit, hh⟩ := applySection_tasks st t holding loaded
    exact h.move htasks hlock (by rw [hcrit, hpc]; rfl) (hh.trans hholds)
  | persist holding data born =>
    rw [hpc] at hholds
    simp only [runSection, hpc] at hs
    cases hs
    exact h.move rfl rfl (by rw [hpc]; rfl) hholds
  | unlock holding =>
    rw [hpc] at hholds
    have hheld : holding = true := hholds
    subst hheld
    simp only [runSection, hpc] at hs
    cases hs
    have hin : (st.tasks t).pc.critical = true := by rw [hpc]; rfl
    refine h.leave rfl hin ?_ rfl rfl
    simp [releaseLock_of_owner (h.guards.holder_eq hin)]

theorem Exclusive.step {ttl : Nat} {l : Label T} (h : Exclusive st) (hr : reliable st l = true)
    (hs : step ttl st l = some st') : Exclusive st' := by
  cases l with
  | tick d unix =>
    cases hs
    exact ⟨h.guards, h.holds⟩
  | call t replica op =>
    simp only [Session.step] at hs
    split at hs
    · rename_i hpc
      cases hs
      exact h.move rfl rfl (by rw [hpc]; rfl) rfl
    · cases hs
  | run t answer => exact h.run hr hs
  | lapse =>
    cases hs
    exact ⟨h.guards, h.holds⟩

end Exclusion

end McpFramework.Session
