import McpFramework.Auth.TokenStore
import McpFramework.Lib.Mutex
import McpFramework.Lib.Transition
import McpFramework.Persistence.Lock

/-!
# Auth — TokenProtocol

`store_token`, `get_token`, `peek_token`, `remove_token` and `purge_expired` of
any number of instances over one backend (`auth/store.rs`), cut at their awaits.
The state holds what concerns one session: its persisted record, its refresh
lock in the backend, and each instance's entry and locks. Operations on other
sessions share no more with these than the mutation lock, and a task may wait
for that one arbitrarily long here anyway.

The token endpoint is outside: its answer is in the label, and what it would
accept next (`server`) is kept beside the state.

Ghost state, which no section reads: the submissions made (`submitted`), how
many grants were stored and removed (`marks`), whether the last of these and the
starts of refreshes was a removal (`removedLast`), and whether a refresh stored
its result over a newer grant (`overwrote`).
-/

namespace McpFramework.TokenProtocol

open Lib

/-! ## Data -/

/-- `refreshLock` is the session's entry in `refresh_locks`, a mutex by its
number; `mutexes` says who holds which. -/
structure Instance where
  token : Option StoredToken
  mutationLock : Option Nat
  refreshLock : Option Nat
  mutexes : Nat → Option Nat
  nextMutex : Nat

inductive Op where
  | get
  | peek
  | store (token : StoredToken)
  | remove
  | purge

/-- Ghost: how many grants `store_token` and `remove_token` have put and taken. -/
structure Marks where
  stores : Nat
  removals : Nat
deriving DecidableEq

/-- A refresh under way: the per-session mutex it holds, and whether it has the
distributed lock too. -/
structure Refresh where
  mutex : Nat
  holding : Bool
deriving DecidableEq

/-- What `get_token_raw` is asked for. -/
inductive Want where
  | peek
  /-- The first look of `get_token`. -/
  | first
  /-- The double-check under the per-session mutex. -/
  | recheck (mutex : Nat)
  /-- The token `refresh_token` takes its refresh token from. -/
  | submit (r : Refresh)
  /-- `expect("just stored")`. -/
  | stored (r : Refresh)
deriving DecidableEq

/-- Why `adopt_persisted_token` is called. -/
inductive Poll where
  | waiting (deadline : Nat)
  | last (holding : Bool)
deriving DecidableEq

/-- Who calls `store_token`. -/
inductive Writer where
  | caller
  | refresh (r : Refresh) (seen : Marks)
deriving DecidableEq

inductive Pc where
  | idle
  | rawRead (want : Want)
  | rawLoad (want : Want)
  | rawWriteBack (want : Want) (token : StoredToken)
  | getRefreshLock
  | awaitRefreshLock (mutex : Nat)
  | tryLock (mutex deadline : Nat)
  | adoptLoad (mutex : Nat) (poll : Poll)
  | adoptWrite (mutex : Nat) (poll : Poll) (token : StoredToken)
  | send (r : Refresh) (refreshToken : String) (seen : Marks)
  | awaitReply (r : Refresh) (refreshToken : String) (seen : Marks)
  | storeLock (writer : Writer) (token : StoredToken)
  | storeMemory (writer : Writer) (token : StoredToken) (persisted : PersistedToken)
  | storeBackend (writer : Writer) (persisted : PersistedToken)
  | releaseDist (r : Refresh) (result : Option StoredToken)
  | removeLock
  | removeMemory
  | removeRefreshLock
  | removeBackend
  | purgeLock
  | purgeScan
  | purgeMemory
  | purgeBackend
  | done (result : Option StoredToken)
  | panicked
deriving DecidableEq

structure Task where
  inst : Nat
  pc : Pc
deriving DecidableEq

/-- Ghost: a refresh token that was submitted, and that of the persisted record
at that moment. -/
structure Submission where
  token : String
  persisted : Option String
deriving DecidableEq

/-- Ghost: the refresh token the authorization server accepts for the session,
and those it has issued. -/
structure Server where
  current : Option String
  issued : List String
deriving DecidableEq

structure State where
  clock : Clock
  refreshConfig : Bool
  record : Option PersistedToken
  lock : Option (LockEntry Nat)
  instances : Nat → Instance
  tasks : Nat → Task
  server : Server
  submitted : List Submission
  marks : Marks
  removedLast : Bool
  overwrote : Bool

/-- What the backend makes of a call. -/
inductive Answer where
  | ok
  | err
deriving DecidableEq

inductive Label where
  /-- `d` passes, after which the system clocks read `unix`. -/
  | tick (d unix : Nat)
  | call (t inst : Nat) (op : Op)
  /-- Task `t` runs its next section. -/
  | run (t : Nat) (answer : Answer)
  /-- The token endpoint answers task `t`; `none` is every kind of failure. -/
  | reply (t : Nat) (response : Option TokenResponse)
  /-- The backend drops the record at the end of its TTL. -/
  | lapse

def idleTask : Task := { inst := 0, pc := .idle }

/-- Instances that start over a persisted record; those of `cached` have it in
memory. -/
def init (clock : Clock) (refreshConfig : Bool) (record : Option PersistedToken)
    (cached : Nat → Bool) : State :=
  let current := record.bind (·.refreshToken)
  { clock := clock, refreshConfig := refreshConfig, record := record, lock := none
    instances := fun i =>
      { token := if cached i then record.map (PersistedToken.intoStored clock) else none
        mutationLock := none, refreshLock := none, mutexes := fun _ => none, nextMutex := 0 }
    tasks := fun _ => idleTask
    server := { current := current, issued := current.toList }
    submitted := [], marks := ⟨0, 0⟩, removedLast := false, overwrote := false }

namespace State

def setTask (st : State) (t : Nat) (task : Task) : State :=
  { st with tasks := Function.update st.tasks t task }

def goto (st : State) (t : Nat) (pc : Pc) : State :=
  st.setTask t { st.tasks t with pc := pc }

/-- The instance a task runs on. -/
def inst (st : State) (t : Nat) : Instance := st.instances (st.tasks t).inst

def setInst (st : State) (t : Nat) (inst : Instance) : State :=
  { st with instances := Function.update st.instances (st.tasks t).inst inst }

def setToken (st : State) (t : Nat) (token : Option StoredToken) : State :=
  st.setInst t { st.inst t with token := token }

/-- The mutex guard is dropped. -/
def dropMutex (st : State) (t mutex : Nat) : State :=
  st.setInst t { st.inst t with mutexes := Function.update (st.inst t).mutexes mutex none }

/-- The guard of the mutation lock is dropped. -/
def dropMutation (st : State) (t : Nat) : State :=
  st.setInst t { st.inst t with mutationLock := none }

@[simp] theorem goto_pc (st : State) (t : Nat) (pc : Pc) : ((st.goto t pc).tasks t).pc = pc := by
  simp [goto, setTask]

theorem setInst_instances (st : State) (t : Nat) (inst : Instance) :
    (st.setInst t inst).instances = Function.update st.instances (st.tasks t).inst inst := rfl

end State

/-! ## The sections -/

section Sections

/-- Where an operation goes with the answer of `get_token_raw`. -/
def afterRaw (st : State) (t : Nat) (want : Want) (found : Option StoredToken) : State :=
  match want with
  | .peek => st.goto t (.done found)
  | .first =>
    match found with
    | some token =>
      if token.isExpired st.clock.now then
        if token.refreshToken.isSome && st.refreshConfig then st.goto t .getRefreshLock
        else st.goto t (.done none)
      else st.goto t (.done (some token))
    | none => st.goto t (.done none)
  | .recheck mutex =>
    let refresh := st.goto t (.tryLock mutex (st.clock.now + REFRESH_LOCK_WAIT))
    match found with
    | some token =>
      if token.isExpired st.clock.now then refresh
      else (st.dropMutex t mutex).goto t (.done (some token))
    | none => refresh
  | .submit r =>
    match found.bind (·.refreshToken) with
    | some refreshToken => st.goto t (.send r refreshToken st.marks)
    | none => st.goto t (.releaseDist r none)
  | .stored r =>
    match found with
    | some token => st.goto t (.releaseDist r (some token))
    | none => (st.dropMutex t r.mutex).goto t .panicked

/-- A persisted token that has not expired. -/
def adoptable (st : State) : Option StoredToken :=
  (st.record.map (PersistedToken.intoStored st.clock)).filter
    fun token => !token.isExpired st.clock.now

/-- The memory section of `store_token`. -/
def storeMemorySection (st : State) (t : Nat) (writer : Writer) (token : StoredToken)
    (persisted : PersistedToken) : State :=
  let st' := { (st.setToken t (some token)).goto t (.storeBackend writer persisted) with
    marks := { st.marks with stores := st.marks.stores + 1 } }
  match writer with
  | .caller => { st' with removedLast := false }
  | .refresh _ seen =>
    { st' with overwrote := st.overwrote || decide (seen.stores < st.marks.stores) }

def runSection (st : State) (t : Nat) (answer : Answer) : Option State :=
  let inst := st.inst t
  match (st.tasks t).pc with
  | .idle => none
  | .rawRead want =>
    match inst.token with
    | some token => some (afterRaw st t want (some token))
    | none => some (st.goto t (.rawLoad want))
  | .rawLoad want =>
    match answer, st.record with
    | .ok, some p => some (st.goto t (.rawWriteBack want (p.intoStored st.clock)))
    | _, _ => some (afterRaw st t want none)
  | .rawWriteBack want token =>
    let entry := inst.token.getD token
    some (afterRaw (st.setToken t (some entry)) t want (some entry))
  | .getRefreshLock =>
    match inst.refreshLock with
    | some mutex => some (st.goto t (.awaitRefreshLock mutex))
    | none =>
      some ((st.setInst t { inst with refreshLock := some inst.nextMutex,
                                      nextMutex := inst.nextMutex + 1 }).goto t
        (.awaitRefreshLock inst.nextMutex))
  | .awaitRefreshLock mutex =>
    match inst.mutexes mutex with
    | none =>
      some ((st.setInst t { inst with mutexes := Function.update inst.mutexes mutex (some t) }).goto
        t (.rawRead (.recheck mutex)))
    | some _ => none
  | .tryLock mutex deadline =>
    match answer with
    | .err => some (st.goto t (.adoptLoad mutex (.last false)))
    | .ok =>
      let r := tryAcquireLock st.lock st.clock.now t REFRESH_LOCK_TTL
      if r.2 then some { st.goto t (.adoptLoad mutex (.last true)) with lock := r.1 }
      else some (st.goto t (.adoptLoad mutex (.waiting deadline)))
  | .adoptLoad mutex poll =>
    match answer, adoptable st with
    | .ok, some token => some (st.goto t (.adoptWrite mutex poll token))
    | _, _ =>
      match poll with
      | .waiting deadline =>
        if st.clock.now ≥ deadline then some (st.goto t (.adoptLoad mutex (.last false)))
        else some (st.goto t (.tryLock mutex deadline))
      | .last holding =>
        some { st.goto t (.rawRead (.submit ⟨mutex, holding⟩)) with removedLast := false }
  | .adoptWrite mutex poll token =>
    let st' := st.setToken t (some token)
    match poll with
    | .waiting _ => some ((st'.dropMutex t mutex).goto t (.done (some token)))
    | .last holding => some (st'.goto t (.releaseDist ⟨mutex, holding⟩ (some token)))
  | .send r refreshToken seen =>
    if st.refreshConfig then
      some { st.goto t (.awaitReply r refreshToken seen) with
        submitted :=
          { token := refreshToken, persisted := st.record.bind (·.refreshToken) } ::
            st.submitted }
    else some (st.goto t (.releaseDist r none))
  | .awaitReply _ _ _ => none
  | .storeLock writer token =>
    match inst.mutationLock with
    | none =>
      some ((st.setInst t { inst with mutationLock := some t }).goto t
        (.storeMemory writer token (PersistedToken.fromStored st.clock token)))
    | some _ => none
  | .storeMemory writer token persisted => some (storeMemorySection st t writer token persisted)
  | .storeBackend writer persisted =>
    let st' := (st.dropMutation t).goto t
      (match writer with
        | .caller => .done none
        | .refresh r _ => .rawRead (.stored r))
    match answer with
    | .ok => some { st' with record := some persisted }
    | .err => some st'
  | .releaseDist r result =>
    let st' := (st.dropMutex t r.mutex).goto t (.done result)
    some { st' with
      lock := if r.holding && answer = .ok then releaseLock st.lock t else st.lock }
  | .removeLock =>
    match inst.mutationLock with
    | none => some ((st.setInst t { inst with mutationLock := some t }).goto t .removeMemory)
    | some _ => none
  | .removeMemory =>
    some { (st.setToken t none).goto t .removeRefreshLock with
      marks := { st.marks with removals := st.marks.removals + 1 }
      removedLast := true }
  | .removeRefreshLock =>
    some ((st.setInst t { inst with refreshLock := none }).goto t .removeBackend)
  | .removeBackend =>
    let st' := (st.dropMutation t).goto t (.done none)
    match answer with
    | .ok => some { st' with record := none }
    | .err => some st'
  | .purgeLock =>
    match inst.mutationLock with
    | none => some ((st.setInst t { inst with mutationLock := some t }).goto t .purgeScan)
    | some _ => none
  | .purgeScan =>
    if inst.token.any (TokenStore.purgeable st.clock.now) then some (st.goto t .purgeMemory)
    else some ((st.dropMutation t).goto t (.done none))
  | .purgeMemory =>
    some ((st.setInst t { inst with token := none, refreshLock := none }).goto t .purgeBackend)
  | .purgeBackend =>
    let st' := (st.dropMutation t).goto t (.done none)
    match answer with
    | .ok => some { st' with record := none }
    | .err => some st'
  | .done _ => none
  | .panicked => none

/-- A refresh token the server hands out is the one it will accept next. -/
def Server.issue (server : Server) (response : Option TokenResponse) : Server :=
  match response.bind (·.refreshToken) with
  | some next => { current := some next, issued := next :: server.issued }
  | none => server

/-- The token endpoint's answer to a submitted refresh token. -/
def replySection (st : State) (t : Nat) (response : Option TokenResponse) : Option State :=
  match (st.tasks t).pc with
  | .awaitReply r refreshToken seen =>
    let server := st.server.issue response
    match response.bind (TokenStore.refreshed st.clock refreshToken) with
    | some newToken =>
      some { st.goto t (.storeLock (.refresh r seen) newToken) with server := server }
    | none => some { st.goto t (.releaseDist r none) with server := server }
  | _ => none

def Op.start : Op → Pc
  | .get => .rawRead .first
  | .peek => .rawRead .peek
  | .store token => .storeLock .caller token
  | .remove => .removeLock
  | .purge => .purgeLock

/-- A record with a refresh token is persisted without a TTL. -/
def step (st : State) : Label → Option State
  | .tick d unix => some { st with clock := ⟨st.clock.now + d, unix⟩ }
  | .call t inst op =>
    match (st.tasks t).pc with
    | .idle => some (st.setTask t { inst := inst, pc := op.start })
    | _ => none
  | .run t answer => runSection st t answer
  | .reply t response => replySection st t response
  | .lapse =>
    match st.record with
    | some p => if p.refreshToken.isNone then some { st with record := none } else none
    | none => none

def system : System State Label := ⟨step⟩

end Sections

/-! ## What a section can do -/

/-- The sections under the mutation lock. -/
def Pc.inMutation : Pc → Bool
  | .storeMemory _ _ _ => true
  | .storeBackend _ _ => true
  | .removeMemory => true
  | .removeRefreshLock => true
  | .removeBackend => true
  | .purgeScan => true
  | .purgeMemory => true
  | .purgeBackend => true
  | _ => false

section Cases

variable {st st' : State} {t : Nat} {want : Want} {found : Option StoredToken}

/-- Where `get_token_raw` leads: a read that ends the operation, one that finds
the token expired and goes for the refresh locks, one that finds the refresh
token to submit. -/
theorem afterRaw_cases (st : State) (t : Nat) (want : Want) (found : Option StoredToken) :
    (∃ result, (want = .peek ∨ want = .first) ∧
        afterRaw st t want found = st.goto t (.done result)) ∨
      (want = .first ∧ found.any (·.refreshToken.isSome) = true ∧
        afterRaw st t want found = st.goto t .getRefreshLock) ∨
      (∃ mutex, want = .recheck mutex ∧
        ((∃ deadline, afterRaw st t want found = st.goto t (.tryLock mutex deadline)) ∨
          ∃ result, afterRaw st t want found = (st.dropMutex t mutex).goto t (.done result))) ∨
      (∃ r, want = .submit r ∧
        ((∃ token refreshToken, found = some token ∧ token.refreshToken = some refreshToken ∧
            afterRaw st t want found = st.goto t (.send r refreshToken st.marks)) ∨
          afterRaw st t want found = st.goto t (.releaseDist r none))) ∨
      ∃ r, want = .stored r ∧
        ((∃ result, afterRaw st t want found = st.goto t (.releaseDist r result)) ∨
          (found = none ∧
            afterRaw st t want found = (st.dropMutex t r.mutex).goto t .panicked)) := by
  cases want with
  | peek => exact .inl ⟨_, .inl rfl, rfl⟩
  | first =>
    cases found with
    | none => exact .inl ⟨none, .inr rfl, rfl⟩
    | some token =>
      by_cases hx : token.isExpired st.clock.now = true
      · by_cases hr : (token.refreshToken.isSome && st.refreshConfig) = true
        · have hsome := (Bool.and_eq_true_iff.mp hr).1
          exact .inr (.inl ⟨rfl, hsome, by simp only [afterRaw, hx, hr, if_true]⟩)
        · exact .inl ⟨none, .inr rfl, by simp only [afterRaw, hx, hr, if_true, if_false,
            Bool.false_eq_true]⟩
      · exact .inl ⟨some token, .inr rfl, by simp only [afterRaw, hx, if_false, Bool.false_eq_true]⟩
  | recheck mutex =>
    refine .inr (.inr (.inl ⟨mutex, rfl, ?_⟩))
    cases found with
    | none => exact .inl ⟨_, rfl⟩
    | some token =>
      by_cases hx : token.isExpired st.clock.now = true
      · exact .inl ⟨_, by simp only [afterRaw, hx, if_true]; rfl⟩
      · exact .inr ⟨_, by simp only [afterRaw, hx, if_false, Bool.false_eq_true]; rfl⟩
  | submit r =>
    refine .inr (.inr (.inr (.inl ⟨r, rfl, ?_⟩)))
    cases found with
    | none => exact .inr rfl
    | some token =>
      cases hr : token.refreshToken with
      | none => exact .inr (by simp only [afterRaw, Option.bind_some, hr])
      | some refreshToken =>
        exact .inl ⟨token, refreshToken, rfl, hr, by simp only [afterRaw, Option.bind_some, hr]⟩
  | stored r =>
    refine .inr (.inr (.inr (.inr ⟨r, rfl, ?_⟩)))
    cases found with
    | none => exact .inr ⟨rfl, rfl⟩
    | some token => exact .inl ⟨_, rfl⟩

theorem reply_cases {response : Option TokenResponse}
    (h : replySection st t response = some st') :
    ∃ r refreshToken seen, (st.tasks t).pc = .awaitReply r refreshToken seen ∧
      ((∃ newToken, response.bind (TokenStore.refreshed st.clock refreshToken) = some newToken ∧
          st' = { st.goto t (.storeLock (.refresh r seen) newToken) with
            server := st.server.issue response }) ∨
        (response.bind (TokenStore.refreshed st.clock refreshToken) = none ∧
          st' = { st.goto t (.releaseDist r none) with server := st.server.issue response })) := by
  unfold replySection at h
  split at h
  · rename_i r refreshToken seen hpc
    refine ⟨r, refreshToken, seen, hpc, ?_⟩
    cases hnew : response.bind (TokenStore.refreshed st.clock refreshToken) with
    | some newToken =>
      simp only [hnew, Option.some.injEq] at h
      exact .inl ⟨newToken, rfl, h.symm⟩
    | none =>
      simp only [hnew, Option.some.injEq] at h
      exact .inr ⟨rfl, h.symm⟩
  · cases h

end Cases

/-! ## What a section leaves alone -/

section Frame

variable {st st' : State} {t : Nat} {pc : Pc} {want : Want} {found : Option StoredToken}

/-- A section touches its own task and instance only, and the mutation lock only
to take it or to give it back. -/
structure Local (st st' : State) (t : Nat) : Prop where
  clock : st'.clock = st.clock
  refreshConfig : st'.refreshConfig = st.refreshConfig
  tasks : ∀ u, u ≠ t → st'.tasks u = st.tasks u
  sameInst : (st'.tasks t).inst = (st.tasks t).inst
  instances : ∀ i, i ≠ (st.tasks t).inst → st'.instances i = st.instances i
  mutation : Moves (fun task : Task => task.pc.inMutation = true) t (st.tasks t) (st'.tasks t)
    (st.inst t).mutationLock (st'.instances (st.tasks t).inst).mutationLock

theorem Local.goto (hpc : pc.inMutation = (st.tasks t).pc.inMutation) :
    Local st (st.goto t pc) t := by
  refine ⟨rfl, rfl, fun u hu => ?_, ?_, fun _ _ => rfl, .stay ?_⟩
  · exact Function.update_of_ne hu ..
  · simp [State.goto, State.setTask]
  · simp [hpc]

/-- A change of the instance that leaves the mutation lock alone goes before. -/
theorem Local.afterInst {inst : Instance} (h : Local (st.setInst t inst) st' t)
    (hlock : inst.mutationLock = (st.inst t).mutationLock) : Local st st' t := by
  have hmut := h.mutation
  refine ⟨h.clock, h.refreshConfig, h.tasks, h.sameInst, fun i hi => ?_, ?_⟩
  · rw [h.instances i hi, State.setInst_instances, Function.update_of_ne hi]
  · rw [State.inst, State.setInst_instances, State.setInst, Function.update_self, hlock] at hmut
    exact hmut

theorem Local.enter (hfree : (st.inst t).mutationLock = none) :
    Local st ((st.setInst t { st.inst t with mutationLock := some t }).goto t pc) t := by
  refine ⟨rfl, rfl, fun u hu => ?_, ?_, fun i hi => ?_, ?_⟩
  · exact Function.update_of_ne hu ..
  · simp [State.goto, State.setTask, State.setInst]
  · exact Function.update_of_ne hi ..
  · show Moves _ t _ _ _ ((Function.update st.instances (st.tasks t).inst _) _).mutationLock
    rw [Function.update_self, hfree]
    exact .enter

theorem Local.leave (hin : (st.tasks t).pc.inMutation = true) (hpc : pc.inMutation = false) :
    Local st ((st.dropMutation t).goto t pc) t := by
  refine ⟨rfl, rfl, fun u hu => ?_, ?_, fun i hi => ?_, ?_⟩
  · exact Function.update_of_ne hu ..
  · simp [State.goto, State.setTask, State.dropMutation, State.setInst]
  · exact Function.update_of_ne hi ..
  · show Moves _ t _ _ _ ((Function.update st.instances (st.tasks t).inst _) _).mutationLock
    rw [Function.update_self]
    exact .leave hin (by simp [hpc])

theorem afterRaw_local (hout : (st.tasks t).pc.inMutation = false) :
    Local st (afterRaw st t want found) t := by
  rcases afterRaw_cases st t want found with
    ⟨result, -, h⟩ | ⟨-, -, h⟩ | ⟨mutex, -, ⟨deadline, h⟩ | ⟨result, h⟩⟩ |
    ⟨r, -, ⟨token, refreshToken, -, -, h⟩ | h⟩ | ⟨r, -, ⟨result, h⟩ | ⟨-, h⟩⟩ <;> rw [h]
  · exact .goto (by rw [hout]; rfl)
  · exact .goto (by rw [hout]; rfl)
  · exact .goto (by rw [hout]; rfl)
  · exact .afterInst (.goto (by rw [State.setInst, hout]; rfl)) rfl
  · exact .goto (by rw [hout]; rfl)
  · exact .goto (by rw [hout]; rfl)
  · exact .goto (by rw [hout]; rfl)
  · exact .afterInst (.goto (by rw [State.setInst, hout]; rfl)) rfl

theorem runSection_local {answer : Answer} (h : runSection st t answer = some st') :
    Local st st' t := by
  cases hpc : (st.tasks t).pc with
  | idle => simp [runSection, hpc] at h
  | awaitReply r refreshToken seen => simp [runSection, hpc] at h
  | done result => simp [runSection, hpc] at h
  | panicked => simp [runSection, hpc] at h
  | rawRead want =>
    simp only [runSection, hpc] at h
    split at h <;> cases h
    · exact afterRaw_local (by rw [hpc]; rfl)
    · exact .goto (by rw [hpc]; rfl)
  | rawLoad want =>
    simp only [runSection, hpc] at h
    split at h <;> cases h
    · exact .goto (by rw [hpc]; rfl)
    · exact afterRaw_local (by rw [hpc]; rfl)
  | rawWriteBack want token =>
    simp only [runSection, hpc, Option.some.injEq] at h
    subst h
    exact .afterInst (afterRaw_local (by rw [State.setInst, hpc]; rfl)) rfl
  | getRefreshLock =>
    simp only [runSection, hpc] at h
    split at h <;> cases h
    · exact .goto (by rw [hpc]; rfl)
    · exact .afterInst (.goto (by rw [State.setInst, hpc]; rfl)) rfl
  | awaitRefreshLock mutex =>
    simp only [runSection, hpc] at h
    split at h <;> cases h
    exact .afterInst (.goto (by rw [State.setInst, hpc]; rfl)) rfl
  | tryLock mutex deadline =>
    simp only [runSection, hpc] at h
    split at h
    · cases h
      exact .goto (by rw [hpc]; rfl)
    · split at h <;> cases h
      · have hgoto : Local st (st.goto t (.adoptLoad mutex (.last true))) t :=
          .goto (by rw [hpc]; rfl)
        exact { hgoto with }
      · exact .goto (by rw [hpc]; rfl)
  | adoptLoad mutex poll =>
    simp only [runSection, hpc] at h
    split at h
    · cases h
      exact .goto (by rw [hpc]; rfl)
    · cases poll with
      | waiting deadline =>
        simp only at h
        split at h <;> cases h <;> exact .goto (by rw [hpc]; rfl)
      | last holding =>
        cases h
        have hgoto : Local st (st.goto t (.rawRead (.submit ⟨mutex, holding⟩))) t :=
          .goto (by rw [hpc]; rfl)
        exact { hgoto with }
  | adoptWrite mutex poll token =>
    cases poll with
    | waiting deadline =>
      simp only [runSection, hpc, Option.some.injEq] at h
      subst h
      exact .afterInst (.afterInst (.goto (by rw [State.setInst, State.setInst, hpc]; rfl)) rfl) rfl
    | last holding =>
      simp only [runSection, hpc, Option.some.injEq] at h
      subst h
      exact .afterInst (.goto (by rw [State.setInst, hpc]; rfl)) rfl
  | send r refreshToken seen =>
    simp only [runSection, hpc] at h
    split at h <;> cases h
    · have hgoto : Local st (st.goto t (.awaitReply r refreshToken seen)) t :=
        .goto (by rw [hpc]; rfl)
      exact { hgoto with }
    · exact .goto (by rw [hpc]; rfl)
  | storeLock writer token =>
    simp only [runSection, hpc] at h
    split at h <;> cases h
    exact .enter ‹_›
  | storeMemory writer token persisted =>
    simp only [runSection, hpc, Option.some.injEq] at h
    subst h
    have hstored : Local st ((st.setToken t (some token)).goto t
        (.storeBackend writer persisted)) t :=
      .afterInst (.goto (by rw [State.setInst, hpc]; rfl)) rfl
    cases writer <;> exact { hstored with }
  | storeBackend writer persisted =>
    simp only [runSection, hpc] at h
    have hleave : ∀ pc : Pc, pc.inMutation = false →
        Local st ((st.dropMutation t).goto t pc) t := fun pc => .leave (by rw [hpc]; rfl)
    cases writer with
    | caller => cases answer <;> cases h <;> exact { hleave (.done none) rfl with }
    | refresh r seen =>
      cases answer <;> cases h <;> exact { hleave (.rawRead (.stored r)) rfl with }
  | releaseDist r result =>
    simp only [runSection, hpc, Option.some.injEq] at h
    subst h
    have hdrop : Local st ((st.dropMutex t r.mutex).goto t (.done result)) t :=
      .afterInst (.goto (by rw [State.setInst, hpc]; rfl)) rfl
    exact { hdrop with }
  | removeLock | purgeLock =>
    simp only [runSection, hpc] at h
    split at h <;> cases h
    exact .enter ‹_›
  | removeMemory =>
    simp only [runSection, hpc, Option.some.injEq] at h
    subst h
    have hremoved : Local st ((st.setToken t none).goto t .removeRefreshLock) t :=
      .afterInst (.goto (by rw [State.setInst, hpc]; rfl)) rfl
    exact { hremoved with }
  | removeRefreshLock | purgeMemory =>
    simp only [runSection, hpc, Option.some.injEq] at h
    subst h
    exact .afterInst (.goto (by rw [State.setInst, hpc]; rfl)) rfl
  | removeBackend | purgeBackend =>
    simp only [runSection, hpc] at h
    have hleave : Local st ((st.dropMutation t).goto t (.done none)) t :=
      .leave (by rw [hpc]; rfl) rfl
    cases answer <;> cases h <;> exact { hleave with }
  | purgeScan =>
    simp only [runSection, hpc] at h
    split at h <;> cases h
    · exact .goto (by rw [hpc]; rfl)
    · exact .leave (by rw [hpc]; rfl) rfl

theorem replySection_local {response : Option TokenResponse}
    (h : replySection st t response = some st') : Local st st' t := by
  obtain ⟨r, refreshToken, seen, hpc, ⟨newToken, -, rfl⟩ | ⟨-, rfl⟩⟩ := reply_cases h
  · have hgoto : Local st (st.goto t (.storeLock (.refresh r seen) newToken)) t :=
      .goto (by rw [hpc]; rfl)
    exact { hgoto with }
  · have hgoto : Local st (st.goto t (.releaseDist r none)) t := .goto (by rw [hpc]; rfl)
    exact { hgoto with }

end Frame

end McpFramework.TokenProtocol
