import McpFramework.Auth.TokenProtocol

/-!
# Auth — RefreshRotation

When no refresh token is submitted twice to an authorization server that
rotates them.

Under the distributed lock an instance looks at the persisted record once more
and, if that is expired too, refreshes. But `refresh_token` takes the refresh
token from memory, which the check did not look at: an instance whose memory is
older than the record submits a token the server has rotated. What keeps every
submission current is that memory has the record's refresh token whenever the
check finds the record expired (`upToDate`).
-/

namespace McpFramework.TokenProtocol

open Lib

/-! ## The runs -/

/-- Only `get_token` is called. -/
def onlyGet (_ : State) : Label → Bool
  | .call _ _ .get => true
  | .call _ _ _ => false
  | _ => true

/-- The backend answers every call, the refresh lock is acquired within its
wait, and no lock runs out while it is held. -/
def reliable (st : State) : Label → Bool
  | .run t answer =>
    decide (answer = .ok) &&
      match (st.tasks t).pc with
      | .tryLock _ _ => !lapsed st.lock st.clock.now
      | .adoptLoad _ (.waiting deadline) =>
        (adoptable st).isSome || decide (st.clock.now < deadline)
      | _ => true
  | _ => true

/-- The authorization server answers the current refresh token with a new one
and refuses every other. -/
def rotates (st : State) : Label → Bool
  | .reply t response =>
    match (st.tasks t).pc with
    | .awaitReply _ refreshToken _ =>
      if st.server.current = some refreshToken then
        match response with
        | some ⟨some _, some next, _⟩ => decide (next ∉ st.server.issued)
        | _ => false
      else response.isNone
    | _ => true
  | _ => true

/-- An instance whose last check finds the persisted record expired has that
record's refresh token in memory. -/
def upToDate (st : State) : Label → Bool
  | .run t _ =>
    match (st.tasks t).pc, st.record with
    | .adoptLoad _ (.last _), some p =>
      (adoptable st).isSome || decide ((st.inst t).token.bind (·.refreshToken) = p.refreshToken)
    | _, _ => true
  | _ => true

/-- Every submission was of the persisted record's refresh token, and no refresh
token was submitted twice. -/
structure Rotated (st : State) : Prop where
  current : ∀ s ∈ st.submitted, s.persisted = some s.token
  once : (st.submitted.map (·.token)).Nodup

namespace Rotation

/-! ## Two locks -/

def refreshOf : Want → Option Refresh
  | .submit r => some r
  | .stored r => some r
  | _ => none

/-- Whether the section after the distributed lock is entered, and whether with
the lock. -/
def dist : Pc → Option Bool
  | .rawRead want => (refreshOf want).map (·.holding)
  | .rawLoad want => (refreshOf want).map (·.holding)
  | .rawWriteBack want _ => (refreshOf want).map (·.holding)
  | .adoptLoad _ (.last holding) => some holding
  | .adoptWrite _ (.last holding) _ => some holding
  | .send r _ _ => some r.holding
  | .awaitReply r _ _ => some r.holding
  | .storeLock (.refresh r _) _ => some r.holding
  | .storeMemory (.refresh r _) _ _ => some r.holding
  | .storeBackend (.refresh r _) _ => some r.holding
  | .releaseDist r _ => some r.holding
  | _ => none

def mutexOf : Want → Option Nat
  | .recheck mutex => some mutex
  | .submit r => some r.mutex
  | .stored r => some r.mutex
  | _ => none

/-- The per-session mutex an operation holds. -/
def mutex : Pc → Option Nat
  | .rawRead want => mutexOf want
  | .rawLoad want => mutexOf want
  | .rawWriteBack want _ => mutexOf want
  | .tryLock mutex _ => some mutex
  | .adoptLoad mutex _ => some mutex
  | .adoptWrite mutex _ _ => some mutex
  | .send r _ _ => some r.mutex
  | .awaitReply r _ _ => some r.mutex
  | .storeLock (.refresh r _) _ => some r.mutex
  | .storeMemory (.refresh r _) _ _ => some r.mutex
  | .storeBackend (.refresh r _) _ => some r.mutex
  | .releaseDist r _ => some r.mutex
  | _ => none

/-- The distributed lock excludes. -/
structure Exclusive (st : State) : Prop where
  guards : Guards (st.lock.map (·.1)) (fun task : Task => (dist task.pc).isSome = true) st.tasks
  holds : ∀ t, dist (st.tasks t).pc ≠ some false

/-- On each instance there is one mutex for the session, and it excludes. -/
structure Owned (st : State) : Prop where
  guards : ∀ i m, Guards ((st.instances i).mutexes m)
    (fun task : Task => task.inst = i ∧ mutex task.pc = some m) st.tasks
  one : ∀ t m, mutex (st.tasks t).pc = some m ∨ (st.tasks t).pc = .awaitRefreshLock m →
    (st.inst t).refreshLock = some m

variable {st st' : State} {t u : Nat} {pc : Pc}

theorem Exclusive.alone (h : Exclusive st) (ht : (dist (st.tasks t).pc).isSome = true)
    (hne : u ≠ t) : dist (st.tasks u).pc = none := by
  have := h.guards.outside_of_ne ht hne
  simpa using this

theorem Owned.alone (h : Owned st) {m m' : Nat} (ht : mutex (st.tasks t).pc = some m)
    (hu : mutex (st.tasks u).pc = some m') (hinst : (st.tasks u).inst = (st.tasks t).inst) :
    u = t := by
  have hlock := h.one t m (.inl ht)
  have hlock' := h.one u m' (.inl hu)
  rw [State.inst] at hlock hlock'
  rw [hinst, hlock] at hlock'
  cases hlock'
  exact (h.guards (st.tasks t).inst m).unique ⟨hinst, hu⟩ ⟨rfl, ht⟩

theorem Exclusive.next (h : Exclusive st)
    (htasks : st'.tasks = Function.update st.tasks t { st.tasks t with pc := pc })
    (hlock : Moves (fun task : Task => (dist task.pc).isSome = true) t (st.tasks t)
      { st.tasks t with pc := pc } (st.lock.map (·.1)) (st'.lock.map (·.1)))
    (hholds : dist pc ≠ some false) : Exclusive st' := by
  refine ⟨?_, ?_⟩
  · rw [htasks]
    exact h.guards.step hlock
  · rw [htasks]
    exact (forall_update_iff (P := fun _ (task : Task) => dist task.pc ≠ some false)).mpr
      ⟨hholds, fun u _ => h.holds u⟩

theorem Exclusive.stay (h : Exclusive st)
    (htasks : st'.tasks = Function.update st.tasks t { st.tasks t with pc := pc })
    (hlock : st'.lock = st.lock) (hpc : dist pc = dist (st.tasks t).pc) : Exclusive st' := by
  refine h.next htasks ?_ ?_
  · rw [hlock]
    exact .stay (by simp only [hpc])
  · rw [hpc]
    exact h.holds t

theorem Owned.next (h : Owned st)
    (htasks : st'.tasks = Function.update st.tasks t { st.tasks t with pc := pc })
    (hmutexes : ∀ i m, Moves (fun task : Task => task.inst = i ∧ mutex task.pc = some m) t
      (st.tasks t) { st.tasks t with pc := pc } ((st.instances i).mutexes m)
      ((st'.instances i).mutexes m))
    (hkeep : ∀ i m, (st.instances i).refreshLock = some m → (st'.instances i).refreshLock = some m)
    (hpc : ∀ m, mutex pc = some m ∨ pc = .awaitRefreshLock m →
      (st'.instances (st.tasks t).inst).refreshLock = some m) : Owned st' := by
  refine ⟨fun i m => ?_, ?_⟩
  · rw [htasks]
    exact (h.guards i m).step (hmutexes i m)
  · simp only [State.inst]
    rw [htasks]
    exact (forall_update_iff (P := fun _ (task : Task) => ∀ m,
      mutex task.pc = some m ∨ task.pc = .awaitRefreshLock m →
        (st'.instances task.inst).refreshLock = some m)).mpr
      ⟨hpc, fun u _ m hu => hkeep _ m (h.one u m hu)⟩

/-- The operation keeps its mutex, if it has one. -/
theorem Owned.stay (h : Owned st)
    (htasks : st'.tasks = Function.update st.tasks t { st.tasks t with pc := pc })
    (hmutexes : ∀ i, (st'.instances i).mutexes = (st.instances i).mutexes)
    (hlocks : ∀ i, (st'.instances i).refreshLock = (st.instances i).refreshLock)
    (hpc : mutex pc = mutex (st.tasks t).pc) (hawait : ∀ m, pc ≠ .awaitRefreshLock m) :
    Owned st' := by
  refine h.next htasks (fun i m => ?_) (fun i m hm => (hlocks i).trans hm) ?_
  · rw [hmutexes]
    exact .stay (by simp only [hpc])
  · rintro m (hm | hm)
    · rw [hlocks]
      exact h.one t m (.inl (hpc ▸ hm))
    · exact absurd hm (hawait m)

/-- Two instances apart, nothing is known of the other's mutexes. -/
theorem moves_mutexes {inst : Instance} {m : Nat} {holder : Option Nat}
    (hinst : inst.mutexes = Function.update (st.inst t).mutexes m holder)
    (hm : Moves (fun task : Task => task.inst = (st.tasks t).inst ∧ mutex task.pc = some m) t
      (st.tasks t) { st.tasks t with pc := pc } ((st.inst t).mutexes m) holder)
    (hother : ∀ m', m' ≠ m → (mutex pc = some m' ↔ mutex (st.tasks t).pc = some m')) (i m' : Nat) :
    Moves (fun task : Task => task.inst = i ∧ mutex task.pc = some m') t
      (st.tasks t) { st.tasks t with pc := pc } ((st.instances i).mutexes m')
      ((Function.update st.instances (st.tasks t).inst inst i).mutexes m') := by
  by_cases hi : i = (st.tasks t).inst
  · subst hi
    rw [Function.update_self, hinst]
    by_cases hm' : m' = m
    · subst hm'
      rw [Function.update_self]
      exact hm
    · rw [Function.update_of_ne hm']
      exact .stay (by simp only [hother m' hm'])
  · rw [Function.update_of_ne hi]
    exact .stay (by simp [Ne.symm hi])

/-! ## What operations carry -/

/-- The persisted record's refresh token. -/
def recorded (st : State) : Option String := st.record.bind (·.refreshToken)

/-- The sections of `get_token`. -/
def ofGet : Pc → Bool
  | .rawRead .peek => false
  | .rawLoad .peek => false
  | .rawWriteBack .peek _ => false
  | .storeLock .caller _ => false
  | .storeMemory .caller _ _ => false
  | .storeBackend .caller _ => false
  | .removeLock => false
  | .removeMemory => false
  | .removeRefreshLock => false
  | .removeBackend => false
  | .purgeLock => false
  | .purgeScan => false
  | .purgeMemory => false
  | .purgeBackend => false
  | .panicked => false
  | _ => true

/-- The operation has found an expired token with a refresh token. -/
def renewing : Pc → Bool
  | .getRefreshLock => true
  | .awaitRefreshLock _ => true
  | pc => (mutex pc).isSome

/-- A token on its way from the backend to memory. -/
def carried : Pc → Option StoredToken
  | .rawWriteBack _ token => some token
  | .adoptWrite _ _ token => some token
  | _ => none

/-- The operation relies on the token in memory: it is about to take it for a
refresh, or has just put it there. -/
def asking : Pc → Bool
  | .rawRead want => (refreshOf want).isSome
  | .storeBackend (.refresh _ _) _ => true
  | _ => false

/-- A refresh whose answer has come and is not persisted yet. -/
def storing : Pc → Bool
  | .storeLock (.refresh _ _) _ => true
  | .storeMemory (.refresh _ _) _ _ => true
  | .storeBackend (.refresh _ _) _ => true
  | _ => false

def awaiting : Pc → Bool
  | .awaitReply _ _ _ => true
  | _ => false

/-- What holds of every operation. -/
structure TaskOk (persisted : Option String) (pc : Pc) : Prop where
  gets : ofGet pc = true
  carries : ∀ token, carried pc = some token → token.refreshToken.isSome = true →
    persisted.isSome = true
  renews : renewing pc = true → persisted.isSome = true

/-- What holds of the operation in the section after the distributed lock: the
refresh token it is about to submit is the record's, and the one it has got is
the server's. -/
structure HolderOk (persisted : Option String) (memory : Option StoredToken)
    (current : Option String) (pc : Pc) : Prop where
  asks : asking pc = true → memory.isSome = true
  cached : ∀ want r, refreshOf want = some r →
    pc ≠ .rawLoad want ∧ ∀ token, pc ≠ .rawWriteBack want token
  submit : ∀ r, pc = .rawRead (.submit r) →
    memory.bind (·.refreshToken) = persisted
  send : ∀ r refreshToken seen, pc = .send r refreshToken seen →
    persisted = some refreshToken
  awaits : ∀ r refreshToken seen, pc = .awaitReply r refreshToken seen →
    current = some refreshToken
  lock : ∀ w token, pc = .storeLock w token →
    token.refreshToken = current ∧ current.isSome = true
  memory : ∀ w token p, pc = .storeMemory w token p →
    (token.refreshToken = current ∧ p.refreshToken = current) ∧ current.isSome = true
  backend : ∀ w p, pc = .storeBackend w p → p.refreshToken = current ∧ current.isSome = true

/-- The server's refresh token is the record's unless a refresh is storing its
result, and has not been submitted unless one awaits its answer. -/
structure Ledger (st : State) : Prop where
  settled : (∀ t, storing (st.tasks t).pc = false) →
    st.server.current = recorded st
  unused : (∀ t, awaiting (st.tasks t).pc = false) →
    ∀ c, st.server.current = some c → c ∉ st.submitted.map (·.token)
  issued : ∀ c, st.server.current = some c → c ∈ st.server.issued
  known : ∀ c ∈ st.submitted.map (·.token), c ∈ st.server.issued
  rotated : Rotated st

structure Inv (st : State) : Prop where
  exclusive : Exclusive st
  owned : Owned st
  memory : ∀ i token, (st.instances i).token = some token →
    token.refreshToken.isSome = true → (recorded st).isSome = true
  tasks : ∀ t, TaskOk (recorded st) (st.tasks t).pc
  holder : ∀ t, HolderOk (recorded st) (st.inst t).token st.server.current (st.tasks t).pc
  ledger : Ledger st

variable {persisted persisted' : Option String} {memory : Option StoredToken}
  {current : Option String}

theorem TaskOk.mono (h : TaskOk persisted pc)
    (hr : persisted.isSome = true → persisted'.isSome = true) : TaskOk persisted' pc :=
  ⟨h.gets, fun token hc hs => hr (h.carries token hc hs), fun hp => hr (h.renews hp)⟩

theorem dist_of_asking (h : asking pc = true) : (dist pc).isSome = true := by
  cases pc with
  | rawRead want => simpa [asking, dist] using h
  | storeBackend w p =>
    cases w with
    | caller => cases h
    | refresh r seen => rfl
  | _ => cases h

theorem mutex_of_asking (h : asking pc = true) : ∃ m, mutex pc = some m := by
  cases pc with
  | rawRead want =>
    cases want with
    | submit r => exact ⟨r.mutex, rfl⟩
    | stored r => exact ⟨r.mutex, rfl⟩
    | _ => cases h
  | storeBackend w p =>
    cases w with
    | caller => cases h
    | refresh r seen => exact ⟨r.mutex, rfl⟩
  | _ => cases h

theorem renewing_of_mutex {m : Nat} (h : mutex pc = some m) : renewing pc = true := by
  cases pc <;> first | rfl | cases h | simp [renewing, h]

/-- Outside the section there is nothing to hold. -/
theorem HolderOk.outside (hgets : ofGet pc = true) (hout : dist pc = none) :
    HolderOk persisted memory current pc := by
  refine ⟨?_, ?_, ?_, ?_, ?_, ?_, ?_, ?_⟩
  · intro h
    have hin := dist_of_asking h
    rw [hout] at hin
    cases hin
  · rintro want r hr
    constructor
    · rintro rfl
      simp [dist, hr] at hout
    · rintro token rfl
      simp [dist, hr] at hout
  · rintro r rfl
    cases hout
  · rintro r refreshToken seen rfl
    cases hout
  · rintro r refreshToken seen rfl
    cases hout
  · rintro w token rfl
    cases w with
    | caller => cases hgets
    | refresh r seen => cases hout
  · rintro w token p rfl
    cases w with
    | caller => cases hgets
    | refresh r seen => cases hout
  · rintro w p rfl
    cases w with
    | caller => cases hgets
    | refresh r seen => cases hout

/-- A change of memory concerns an operation only while it asks for it. -/
theorem HolderOk.other {memory' : Option StoredToken} (h : HolderOk persisted memory current pc)
    (hm : asking pc = true → memory' = memory) : HolderOk persisted memory' current pc := by
  refine ⟨?_, h.cached, ?_, h.send, h.awaits, h.lock, h.memory, h.backend⟩
  · intro ha
    rw [hm ha]
    exact h.asks ha
  · rintro r rfl
    rw [hm rfl]
    exact h.submit r rfl

/-- Nobody was where the operation has not come from, and nobody else is. -/
theorem all_of_update {f : Pc → Bool} (hf : f pc = f (st.tasks t).pc)
    (h : ∀ u, f (Function.update st.tasks t { st.tasks t with pc := pc } u).pc = false) (u : Nat) :
    f (st.tasks u).pc = false := by
  obtain ⟨hself, hothers⟩ := (forall_update_iff (P := fun _ (task : Task) =>
    f task.pc = false)).mp h
  by_cases hu : u = t
  · rw [hu, ← hf]
    exact hself
  · exact hothers u hu

theorem Ledger.stay (h : Ledger st)
    (htasks : st'.tasks = Function.update st.tasks t { st.tasks t with pc := pc })
    (hrecord : recorded st' = recorded st) (hserver : st'.server = st.server)
    (hsubmitted : st'.submitted = st.submitted)
    (hs : storing pc = storing (st.tasks t).pc) (ha : awaiting pc = awaiting (st.tasks t).pc) :
    Ledger st' := by
  refine ⟨?_, ?_, ?_, ?_, ?_⟩
  · intro hno
    rw [hserver, hrecord]
    rw [htasks] at hno
    exact h.settled (all_of_update hs hno)
  · intro hno
    rw [hserver, hsubmitted]
    rw [htasks] at hno
    exact h.unused (all_of_update ha hno)
  · rw [hserver]
    exact h.issued
  · rw [hserver, hsubmitted]
    exact h.known
  · exact ⟨by rw [hsubmitted]; exact h.rotated.current, by rw [hsubmitted]; exact h.rotated.once⟩

/-- A step that leaves record, server and memory alone. -/
theorem Inv.next (hi : Inv st) (pc : Pc) (hex : Exclusive st') (how : Owned st')
    (htasks : st'.tasks = Function.update st.tasks t { st.tasks t with pc := pc })
    (htokens : ∀ i, (st'.instances i).token = (st.instances i).token)
    (hrecord : recorded st' = recorded st) (hserver : st'.server = st.server)
    (hsubmitted : st'.submitted = st.submitted) (htask : TaskOk (recorded st) pc)
    (hholder : HolderOk (recorded st) (st.inst t).token st.server.current pc)
    (hs : storing pc = storing (st.tasks t).pc) (ha : awaiting pc = awaiting (st.tasks t).pc) :
    Inv st' := by
  refine ⟨hex, how, ?_, ?_, ?_, hi.ledger.stay htasks hrecord hserver hsubmitted hs ha⟩
  · intro i token h
    rw [hrecord]
    rw [htokens] at h
    exact hi.memory i token h
  · rw [hrecord, htasks]
    exact (forall_update_iff (P := fun _ (task : Task) => TaskOk (recorded st) task.pc)).mpr
      ⟨htask, fun u _ => hi.tasks u⟩
  · simp only [State.inst, htokens]
    rw [hrecord, hserver, htasks]
    exact (forall_update_iff (P := fun _ (task : Task) =>
      HolderOk (recorded st) (st.instances task.inst).token st.server.current task.pc)).mpr
      ⟨hholder, fun u _ => hi.holder u⟩

/-- A step that keeps its locks. -/
theorem Inv.goto (hi : Inv st) (hdist : dist pc = dist (st.tasks t).pc)
    (hmutex : mutex pc = mutex (st.tasks t).pc) (hawait : ∀ m, pc ≠ .awaitRefreshLock m)
    (htask : TaskOk (recorded st) pc)
    (hholder : HolderOk (recorded st) (st.inst t).token st.server.current pc)
    (hs : storing pc = storing (st.tasks t).pc) (ha : awaiting pc = awaiting (st.tasks t).pc) :
    Inv (st.goto t pc) :=
  hi.next pc (hi.exclusive.stay rfl rfl hdist)
    (hi.owned.stay rfl (fun _ => rfl) (fun _ => rfl) hmutex hawait) rfl (fun _ => rfl) rfl rfl rfl
    htask hholder hs ha

/-- What the operation leaves alone in its instance stays in all. -/
theorem instances_update {β : Type} {inst : Instance} (f : Instance → β)
    (h : f inst = f (st.inst t)) (i : Nat) :
    f (Function.update st.instances (st.tasks t).inst inst i) = f (st.instances i) :=
  (forall_update_iff (P := fun i (inst : Instance) => f inst = f (st.instances i))).mpr
    ⟨h, fun _ _ => rfl⟩ i

/-- The operation ends and releases the mutex. -/
theorem Inv.drop (hi : Inv st) {m : Nat} {result : Option StoredToken}
    (hmutex : mutex (st.tasks t).pc = some m) {lock : Option (LockEntry Nat)}
    (hlock : Moves (fun task : Task => (dist task.pc).isSome = true) t (st.tasks t)
      { st.tasks t with pc := .done result } (st.lock.map (·.1)) (lock.map (·.1)))
    (hs : storing (st.tasks t).pc = false) (ha : awaiting (st.tasks t).pc = false) :
    Inv { (st.dropMutex t m).goto t (.done result) with lock := lock } := by
  refine hi.next (.done result) (hi.exclusive.next rfl hlock (by simp [dist])) ?_ rfl
    (instances_update (·.token) rfl) rfl rfl rfl ⟨rfl, by simp [carried], by simp [renewing, mutex]⟩
    (.outside rfl rfl) (by rw [hs]; rfl) (by rw [ha]; rfl)
  refine hi.owned.next rfl (moves_mutexes rfl (.leave ⟨rfl, hmutex⟩ (by simp [mutex])) ?_) ?_ ?_
  · intro m' hne
    rw [hmutex]
    simp [mutex, Ne.symm hne]
  · intro i m' h
    exact (instances_update (t := t) (·.refreshLock) (by rfl) i).trans h
  · rintro m' (h | h) <;> cases h

/-- A token from the backend enters memory. -/
theorem Inv.setToken (hi : Inv st) {token : StoredToken}
    (hrenew : token.refreshToken.isSome = true → (recorded st).isSome = true)
    (hsafe : ∀ u, (st.tasks u).inst = (st.tasks t).inst → asking (st.tasks u).pc = true →
      (st.inst t).token = some token) : Inv (st.setToken t (some token)) := by
  refine ⟨⟨hi.exclusive.guards, hi.exclusive.holds⟩, ⟨fun i m => ?_, fun u m hu => ?_⟩, ?_,
    hi.tasks, fun u => ?_, ⟨hi.ledger.settled, hi.ledger.unused, hi.ledger.issued,
    hi.ledger.known, ⟨hi.ledger.rotated.current, hi.ledger.rotated.once⟩⟩⟩
  · rw [State.setToken, State.setInst_instances, instances_update (·.mutexes) (by rfl)]
    exact hi.owned.guards i m
  · exact (instances_update (t := t) (·.refreshLock) (by rfl) _).trans (hi.owned.one u m hu)
  · intro i token' h
    by_cases hi' : i = (st.tasks t).inst
    · subst hi'
      rw [State.setToken, State.setInst_instances, Function.update_self] at h
      cases h
      exact hrenew
    · rw [State.setToken, State.setInst_instances, Function.update_of_ne hi'] at h
      exact hi.memory i token' h
  · refine (hi.holder u).other fun ha => ?_
    by_cases hinst : (st.tasks u).inst = (st.tasks t).inst
    · have hold := hsafe u hinst ha
      show ((st.setToken t (some token)).instances (st.tasks u).inst).token = _
      rw [hinst, State.setToken, State.setInst_instances, Function.update_self]
      rw [show st.inst u = st.inst t from congrArg st.instances hinst, hold]
    · show ((st.setToken t (some token)).instances (st.tasks u).inst).token = _
      rw [State.setToken, State.setInst_instances, Function.update_of_ne hinst]
      rfl

/-! ## One section at a time -/

/-- The rest of an operation that has asked `get_token_raw`, in its three
sections alike. -/
theorem Inv.afterRaw (hi : Inv st) (want : Want) {found : Option StoredToken}
    (hdist : dist (st.tasks t).pc = (refreshOf want).map (·.holding))
    (hmutex : mutex (st.tasks t).pc = mutexOf want) (hpeek : want ≠ .peek)
    (hs : storing (st.tasks t).pc = false) (ha : awaiting (st.tasks t).pc = false)
    (hrenew : ∀ token, found = some token → token.refreshToken.isSome = true →
      (recorded st).isSome = true)
    (hfound : ∀ r, want = .submit r →
      found.bind (·.refreshToken) = recorded st)
    (hstored : ∀ r, want = .stored r → found.isSome = true)
    (hmine : renewing (st.tasks t).pc = true → (recorded st).isSome = true) :
    Inv (afterRaw st t want found) := by
  have hmine' : ∀ m, mutexOf want = some m → (recorded st).isSome = true := fun m h =>
    hmine (renewing_of_mutex (hmutex.trans h))
  rcases afterRaw_cases st t want found with
    ⟨result, hw, h⟩ | ⟨rfl, hf, h⟩ | ⟨m, rfl, ⟨deadline, h⟩ | ⟨result, h⟩⟩ |
    ⟨r, rfl, ⟨token, refreshToken, hf, hr, h⟩ | h⟩ | ⟨r, rfl, ⟨result, h⟩ | ⟨hf, h⟩⟩ <;> rw [h]
  · have hwant : want = .first := hw.resolve_left hpeek
    subst hwant
    exact hi.goto hdist.symm hmutex.symm (by simp) ⟨rfl, by simp [carried],
      by simp [renewing, mutex]⟩ (.outside rfl rfl) hs.symm ha.symm
  · have hr : (recorded st).isSome = true := by
      cases hfd : found with
      | none =>
        rw [hfd] at hf
        cases hf
      | some token => exact hrenew token hfd (by simpa [hfd] using hf)
    exact hi.goto hdist.symm hmutex.symm (by simp) ⟨rfl, by simp [carried], fun _ => hr⟩
      (.outside rfl rfl) hs.symm ha.symm
  · exact hi.goto hdist.symm hmutex.symm (by simp) ⟨rfl, by simp [carried],
      fun _ => hmine' _ rfl⟩ (.outside rfl rfl) hs.symm ha.symm
  · have hnone : dist (st.tasks t).pc = none := hdist
    exact hi.drop hmutex (.stay (by simp only [hnone]; rfl)) hs ha
  · refine hi.goto hdist.symm hmutex.symm (by simp) ⟨rfl, by simp [carried],
      fun _ => hmine' _ rfl⟩ ⟨by simp [asking], ?_, by simp, ?_, by simp, by simp, by simp,
      by simp⟩ hs.symm ha.symm
    · intro w r' _
      exact ⟨by simp, by simp⟩
    · intro r' rt seen heq
      cases heq
      rw [← hfound r rfl, hf]
      exact hr
  · refine hi.goto hdist.symm hmutex.symm (by simp) ⟨rfl, by simp [carried],
      fun _ => hmine' _ rfl⟩ ⟨by simp [asking], ?_, by simp, by simp, by simp, by simp, by simp,
      by simp⟩ hs.symm ha.symm
    intro w r' _
    exact ⟨by simp, by simp⟩
  · refine hi.goto hdist.symm hmutex.symm (by simp) ⟨rfl, by simp [carried],
      fun _ => hmine' _ rfl⟩ ⟨by simp [asking], ?_, by simp, by simp, by simp, by simp, by simp,
      by simp⟩ hs.symm ha.symm
    intro w r' _
    exact ⟨by simp, by simp⟩
  · have hsome := hstored r rfl
    rw [hf] at hsome
    cases hsome

/-- Facts of the operation at hand, at its program counter. -/
theorem Inv.at (hi : Inv st) (hpc : (st.tasks t).pc = pc) :
    TaskOk (recorded st) pc ∧
      HolderOk (recorded st) (st.inst t).token st.server.current pc := by
  subst hpc
  exact ⟨hi.tasks t, hi.holder t⟩

/-- The holder of the distributed lock changes record, server or submissions. -/
theorem Inv.inside (hi : Inv st) (pc : Pc) (hin : (dist (st.tasks t).pc).isSome = true)
    (hex : Exclusive st') (how : Owned st')
    (htasks : st'.tasks = Function.update st.tasks t { st.tasks t with pc := pc })
    (hinsts : ∀ i, (st'.instances i).token = (st.instances i).token)
    (hrecord : (recorded st).isSome = true → (recorded st').isSome = true)
    (htask : TaskOk (recorded st') pc)
    (hholder : HolderOk (recorded st') (st.inst t).token st'.server.current pc)
    (hledger : Ledger st') : Inv st' := by
  refine ⟨hex, how, ?_, ?_, ?_, hledger⟩
  · intro i token h hs
    rw [hinsts] at h
    exact hrecord (hi.memory i token h hs)
  · rw [htasks]
    exact (forall_update_iff (P := fun _ (task : Task) => TaskOk (recorded st') task.pc)).mpr
      ⟨htask, fun u _ => (hi.tasks u).mono hrecord⟩
  · simp only [State.inst, hinsts]
    rw [htasks]
    exact (forall_update_iff (P := fun _ (task : Task) =>
      HolderOk (recorded st') (st.instances task.inst).token st'.server.current task.pc)).mpr
      ⟨hholder, fun u hu => .outside (hi.tasks u).gets (hi.exclusive.alone hin hu)⟩

theorem rawLoad_cases {want : Want} (hpc : (st.tasks t).pc = .rawLoad want)
    (hr : runSection st t .ok = some st') :
    (∃ p, st.record = some p ∧ st' = st.goto t (.rawWriteBack want (p.intoStored st.clock))) ∨
      (st.record = none ∧ st' = afterRaw st t want none) := by
  simp only [runSection, hpc] at hr
  cases hrec : st.record with
  | some p =>
    simp only [hrec, Option.some.injEq] at hr
    exact .inl ⟨p, rfl, hr.symm⟩
  | none =>
    simp only [hrec, Option.some.injEq] at hr
    exact .inr ⟨rfl, hr.symm⟩

theorem Inv.rawRead (hi : Inv st) {want : Want} (hpc : (st.tasks t).pc = .rawRead want)
    (hr : runSection st t .ok = some st') : Inv st' := by
  obtain ⟨htask, hholder⟩ := hi.at hpc
  have hpeek : want ≠ .peek := by
    rintro rfl
    cases htask.gets
  simp only [runSection, hpc] at hr
  cases hm : (st.inst t).token with
  | some token =>
    simp only [hm, Option.some.injEq] at hr
    subst hr
    refine hi.afterRaw want (by rw [hpc]; rfl) (by rw [hpc]; rfl) hpeek (by rw [hpc]; rfl)
      (by rw [hpc]; rfl) ?_ ?_ (fun _ _ => rfl) (hi.tasks t).renews
    · rintro token' h
      cases h
      exact hi.memory _ token hm
    · rintro r rfl
      rw [← hm]
      exact hholder.submit r rfl
  | none =>
    simp only [hm, Option.some.injEq] at hr
    subst hr
    have hfirst : refreshOf want = none := by
      cases hw : refreshOf want with
      | none => rfl
      | some r =>
        have hsome := hholder.asks (by simp [asking, hw])
        rw [hm] at hsome
        cases hsome
    refine hi.goto (by rw [hpc]; rfl) (by rw [hpc]; rfl) (by simp)
      ⟨?_, by simp [carried], fun h => htask.renews h⟩ (.outside ?_ (by simp [dist, hfirst]))
      (by rw [hpc]; rfl) (by rw [hpc]; rfl)
    all_goals cases want <;> first | rfl | exact absurd rfl hpeek

theorem Inv.rawLoad (hi : Inv st) {want : Want} (hpc : (st.tasks t).pc = .rawLoad want)
    (hr : runSection st t .ok = some st') : Inv st' := by
  obtain ⟨htask, hholder⟩ := hi.at hpc
  have hpeek : want ≠ .peek := by
    rintro rfl
    cases htask.gets
  have hfirst : refreshOf want = none := by
    cases hw : refreshOf want with
    | none => rfl
    | some r => exact absurd rfl (hholder.cached want r hw).1
  rcases rawLoad_cases hpc hr with ⟨p, hrec, rfl⟩ | ⟨-, rfl⟩
  · refine hi.goto (by rw [hpc]; rfl) (by rw [hpc]; rfl) (by simp)
      ⟨?_, ?_, fun h => htask.renews h⟩ (.outside ?_ (by simp [dist, hfirst]))
      (by rw [hpc]; rfl) (by rw [hpc]; rfl)
    · cases want <;> first | rfl | exact absurd rfl hpeek
    · intro token h hs
      cases h
      rw [recorded, hrec]
      exact hs
    · cases want <;> first | rfl | exact absurd rfl hpeek
  · refine hi.afterRaw want (by rw [hpc]; rfl) (by rw [hpc]; rfl) hpeek (by rw [hpc]; rfl)
      (by rw [hpc]; rfl) (by simp) ?_ ?_ (hi.tasks t).renews
    · rintro r rfl
      cases hfirst
    · rintro r rfl
      cases hfirst

theorem Inv.rawWriteBack (hi : Inv st) {want : Want} {token : StoredToken}
    (hpc : (st.tasks t).pc = .rawWriteBack want token)
    (hr : runSection st t .ok = some st') : Inv st' := by
  obtain ⟨htask, hholder⟩ := hi.at hpc
  have hpeek : want ≠ .peek := by
    rintro rfl
    cases htask.gets
  have hfirst : refreshOf want = none := by
    cases hw : refreshOf want with
    | none => rfl
    | some r => exact absurd rfl ((hholder.cached want r hw).2 token)
  have hentry : ((st.inst t).token.getD token).refreshToken.isSome = true →
      (recorded st).isSome = true := by
    cases hm : (st.inst t).token with
    | some entry => exact hi.memory _ entry hm
    | none => exact htask.carries token rfl
  have hset : Inv (st.setToken t (some ((st.inst t).token.getD token))) := by
    refine hi.setToken hentry fun u hinst ha => ?_
    have hsome := (hi.holder u).asks ha
    rw [show st.inst u = st.inst t from congrArg st.instances hinst] at hsome
    obtain ⟨entry, hm⟩ := Option.isSome_iff_exists.mp hsome
    rw [hm]
    rfl
  simp only [runSection, hpc, Option.some.injEq] at hr
  subst hr
  refine hset.afterRaw (t := t) want (hpc ▸ rfl) (hpc ▸ rfl) hpeek (hpc ▸ rfl)
    (hpc ▸ rfl) ?_ ?_ (fun _ _ => rfl) (hi.tasks t).renews
  · rintro token' h
    cases h
    exact hentry
  · rintro r rfl
    cases hfirst

theorem Inv.getRefreshLock (hi : Inv st) (hpc : (st.tasks t).pc = .getRefreshLock)
    (hr : runSection st t .ok = some st') : Inv st' := by
  obtain ⟨htask, -⟩ := hi.at hpc
  have hmutex : mutex (st.tasks t).pc = none := by rw [hpc]; rfl
  simp only [runSection, hpc] at hr
  cases hl : (st.inst t).refreshLock with
  | some m =>
    simp only [hl, Option.some.injEq] at hr
    subst hr
    refine hi.next (.awaitRefreshLock m) (hi.exclusive.stay rfl rfl (by rw [hpc]; rfl)) ?_ rfl
      (fun _ => rfl) rfl rfl rfl ⟨rfl, by simp [carried], fun _ => htask.renews rfl⟩
      (.outside rfl rfl) (by rw [hpc]; rfl) (by rw [hpc]; rfl)
    refine hi.owned.next rfl (fun i m' => .stay (by simp only [hmutex]; rfl)) (fun _ _ h => h) ?_
    rintro m' (h | h)
    · cases h
    · cases h
      exact hl
  | none =>
    simp only [hl, Option.some.injEq] at hr
    subst hr
    refine hi.next (.awaitRefreshLock (st.inst t).nextMutex)
      (hi.exclusive.stay rfl rfl (by rw [hpc]; rfl)) ?_ rfl
      (instances_update (·.token) rfl) rfl rfl rfl
      ⟨rfl, by simp [carried], fun _ => htask.renews rfl⟩
      (.outside rfl rfl) (by rw [hpc]; rfl) (by rw [hpc]; rfl)
    refine hi.owned.next rfl (fun i m' => ?_) (fun i m' h => ?_) ?_
    · show Moves _ t _ _ _ (Function.update st.instances (st.tasks t).inst
        { st.inst t with refreshLock := some (st.inst t).nextMutex,
                         nextMutex := (st.inst t).nextMutex + 1 } i |>.mutexes m')
      rw [instances_update (t := t) (·.mutexes) (by rfl) i]
      exact .stay (by simp only [hmutex]; rfl)
    · have hne : i ≠ (st.tasks t).inst := by
        rintro rfl
        rw [State.inst, h] at hl
        cases hl
      show (Function.update st.instances (st.tasks t).inst _ i).refreshLock = some m'
      rw [Function.update_of_ne hne, h]
    · rintro m' (h | h)
      · cases h
      · cases h
        show (Function.update st.instances (st.tasks t).inst _ (st.tasks t).inst).refreshLock = _
        rw [Function.update_self]

theorem Inv.awaitRefreshLock (hi : Inv st) {m : Nat}
    (hpc : (st.tasks t).pc = .awaitRefreshLock m)
    (hr : runSection st t .ok = some st') : Inv st' := by
  obtain ⟨htask, -⟩ := hi.at hpc
  have hmutex : mutex (st.tasks t).pc = none := by rw [hpc]; rfl
  simp only [runSection, hpc] at hr
  cases hfree : (st.inst t).mutexes m with
  | some u => simp [hfree] at hr
  | none =>
    simp only [hfree, Option.some.injEq] at hr
    subst hr
    refine hi.next (.rawRead (.recheck m)) (hi.exclusive.stay rfl rfl (by rw [hpc]; rfl)) ?_
      rfl (instances_update (·.token) rfl) rfl rfl rfl
      ⟨rfl, by simp [carried], fun _ => htask.renews rfl⟩
      (.outside rfl rfl) (by rw [hpc]; rfl) (by rw [hpc]; rfl)
    refine hi.owned.next rfl (moves_mutexes rfl ?_ ?_) ?_ ?_
    · rw [hfree]
      exact .enter
    · intro m' hne
      rw [hmutex]
      simp [mutex, mutexOf, Ne.symm hne]
    · intro i m' h
      exact (instances_update (t := t) (·.refreshLock) (by rfl) i).trans h
    · rintro m' (h | h)
      · cases h
        exact (instances_update (t := t) (·.refreshLock) (by rfl) _).trans
          (hi.owned.one t m (.inr hpc))
      · cases h

theorem Inv.tryLock (hi : Inv st) {m deadline : Nat}
    (hpc : (st.tasks t).pc = .tryLock m deadline)
    (hrel : reliable st (.run t .ok) = true) (hr : runSection st t .ok = some st') : Inv st' := by
  obtain ⟨htask, -⟩ := hi.at hpc
  have hlapse : lapsed st.lock st.clock.now = false := by simpa [reliable, hpc] using hrel
  simp only [runSection, hpc] at hr
  rcases tryAcquireLock_cases hlapse with ⟨hfree, hg⟩ | ⟨-, hg⟩
  · rw [hg] at hr
    simp only [if_true, Option.some.injEq] at hr
    subst hr
    refine hi.next (.adoptLoad m (.last true)) (hi.exclusive.next rfl ?_ (by simp [dist]))
      (hi.owned.stay rfl (fun _ => rfl) (fun _ => rfl) (by rw [hpc]; rfl) (by simp)) rfl
      (fun _ => rfl) rfl rfl rfl ⟨rfl, by simp [carried], fun _ => htask.renews rfl⟩
      ⟨by simp [asking], by simp, by simp, by simp, by simp, by simp, by simp, by simp⟩
      (by rw [hpc]; rfl) (by rw [hpc]; rfl)
    rw [hfree]
    exact .enter
  · rw [hg] at hr
    simp only [Bool.false_eq_true, if_false, Option.some.injEq] at hr
    subst hr
    exact hi.goto (by rw [hpc]; rfl) (by rw [hpc]; rfl) (by simp)
      ⟨rfl, by simp [carried], fun _ => htask.renews rfl⟩ (.outside rfl rfl)
      (by rw [hpc]; rfl) (by rw [hpc]; rfl)

theorem Inv.adoptLoad (hi : Inv st) {m : Nat} {poll : Poll}
    (hpc : (st.tasks t).pc = .adoptLoad m poll) (hrel : reliable st (.run t .ok) = true)
    (hg : upToDate st (.run t .ok) = true) (hr : runSection st t .ok = some st') : Inv st' := by
  obtain ⟨htask, -⟩ := hi.at hpc
  have hsome : (recorded st).isSome = true := htask.renews rfl
  simp only [runSection, hpc] at hr
  cases had : adoptable st with
  | some token =>
    simp only [had, Option.some.injEq] at hr
    subst hr
    refine hi.goto (by rw [hpc]; cases poll <;> rfl) (by rw [hpc]; rfl) (by simp)
      ⟨rfl, fun _ _ _ => hsome, fun _ => hsome⟩
      ⟨by simp [asking], by simp, by simp, by simp, by simp, by simp, by simp, by simp⟩
      (by rw [hpc]; rfl) (by rw [hpc]; rfl)
  | none =>
    cases poll with
    | waiting deadline =>
      have hlt : ¬ st.clock.now ≥ deadline := by simpa [reliable, hpc, had] using hrel
      simp only [had, hlt, if_false, Option.some.injEq] at hr
      subst hr
      exact hi.goto (by rw [hpc]; rfl) (by rw [hpc]; rfl) (by simp)
        ⟨rfl, by simp [carried], fun _ => hsome⟩ (.outside rfl rfl) (by rw [hpc]; rfl)
        (by rw [hpc]; rfl)
    | last holding =>
      simp only [had, Option.some.injEq] at hr
      subst hr
      -- The record is expired, so memory has its refresh token.
      obtain ⟨refreshToken, hrt⟩ := Option.isSome_iff_exists.mp hsome
      obtain ⟨p, hp, hprt⟩ := Option.bind_eq_some_iff.mp hrt
      have hmem : (st.inst t).token.bind (·.refreshToken) = recorded st := by
        rw [hrt, ← hprt]
        simpa [upToDate, hpc, hp, had] using hg
      refine hi.next (.rawRead (.submit ⟨m, holding⟩))
        (hi.exclusive.stay rfl rfl (by rw [hpc]; rfl))
        (hi.owned.stay rfl (fun _ => rfl) (fun _ => rfl) (by rw [hpc]; rfl) (by simp)) rfl
        (fun _ => rfl) rfl rfl rfl ⟨rfl, by simp [carried], fun _ => hsome⟩
        ⟨fun _ => ?_, by simp, fun _ _ => hmem, by simp, by simp, by simp, by simp, by simp⟩
        (by rw [hpc]; rfl) (by rw [hpc]; rfl)
      cases hm : (st.inst t).token with
      | some _ => rfl
      | none =>
        rw [hm] at hmem
        rw [← hmem] at hsome
        cases hsome

/-- Nobody else on the instance relies on the token the holder of the mutex
replaces. -/
theorem Inv.safe_of_mutex (hi : Inv st) {m : Nat} (hm : mutex (st.tasks t).pc = some m)
    (hnot : asking (st.tasks t).pc = false) (u : Nat)
    (hinst : (st.tasks u).inst = (st.tasks t).inst) : asking (st.tasks u).pc = false := by
  cases ha : asking (st.tasks u).pc with
  | false => rfl
  | true =>
    obtain ⟨m', hu⟩ := mutex_of_asking ha
    have heq := hi.owned.alone hm hu hinst
    rw [heq, hnot] at ha
    cases ha

theorem Inv.adoptWrite (hi : Inv st) {m : Nat} {poll : Poll} {token : StoredToken}
    (hpc : (st.tasks t).pc = .adoptWrite m poll token)
    (hr : runSection st t .ok = some st') : Inv st' := by
  obtain ⟨htask, -⟩ := hi.at hpc
  have hset : Inv (st.setToken t (some token)) := by
    refine hi.setToken (htask.carries token rfl) fun u hinst ha => ?_
    rw [hi.safe_of_mutex (t := t) (m := m) (by rw [hpc]; rfl) (by rw [hpc]; rfl) u hinst] at ha
    cases ha
  cases poll with
  | waiting deadline =>
    simp only [runSection, hpc, Option.some.injEq] at hr
    subst hr
    have hout : dist (st.tasks t).pc = none := by rw [hpc]; rfl
    have hmut : mutex (st.tasks t).pc = some m := by rw [hpc]; rfl
    exact hset.drop (t := t) hmut (.stay (by
        show (dist _).isSome = true ↔ (dist (st.tasks t).pc).isSome = true
        rw [hout]
        rfl))
      (show storing (st.tasks t).pc = false by rw [hpc]; rfl)
      (show awaiting (st.tasks t).pc = false by rw [hpc]; rfl)
  | last holding =>
    simp only [runSection, hpc, Option.some.injEq] at hr
    subst hr
    exact hset.goto (t := t) (show _ = dist (st.tasks t).pc by rw [hpc]; rfl)
      (show _ = mutex (st.tasks t).pc by rw [hpc]; rfl) (by simp)
      ⟨rfl, by simp [carried], fun _ => htask.renews rfl⟩
      ⟨by simp [asking], by simp, by simp, by simp, by simp, by simp, by simp, by simp⟩
      (show _ = storing (st.tasks t).pc by rw [hpc]; rfl)
      (show _ = awaiting (st.tasks t).pc by rw [hpc]; rfl)

/-- Where nobody else can be, the operation is not either. -/
theorem Inv.none_of_self (hi : Inv st) (hin : (dist (st.tasks t).pc).isSome = true)
    {f : Pc → Bool} (hf : ∀ pc, ofGet pc = true → dist pc = none → f pc = false)
    (hself : f (st.tasks t).pc = false) (u : Nat) : f (st.tasks u).pc = false := by
  by_cases hu : u = t
  · rw [hu]
    exact hself
  · exact hf _ (hi.tasks u).gets (hi.exclusive.alone hin hu)

theorem storing_of_outside (pc : Pc) (_ : ofGet pc = true) (h : dist pc = none) :
    storing pc = false := by
  cases pc with
  | storeLock w token => cases w <;> first | rfl | cases h
  | storeMemory w token p => cases w <;> first | rfl | cases h
  | storeBackend w p => cases w <;> first | rfl | cases h
  | _ => rfl

theorem awaiting_of_outside (pc : Pc) (_ : ofGet pc = true) (h : dist pc = none) :
    awaiting pc = false := by
  cases pc <;> first | rfl | cases h

/-- Before a refresh submits, the server's refresh token is the record's and has
not been submitted. -/
theorem Inv.before_send (hi : Inv st) {r : Refresh} {refreshToken : String} {m : Marks}
    (hpc : (st.tasks t).pc = .send r refreshToken m) :
    recorded st = some refreshToken ∧ st.server.current = some refreshToken ∧
      refreshToken ∉ st.submitted.map (·.token) := by
  have hin : (dist (st.tasks t).pc).isSome = true := by rw [hpc]; rfl
  have hrec : recorded st = some refreshToken := (hi.at hpc).2.send r refreshToken m rfl
  have hcur : st.server.current = some refreshToken :=
    (hi.ledger.settled (hi.none_of_self hin storing_of_outside (by rw [hpc]; rfl))).trans hrec
  exact ⟨hrec, hcur,
    hi.ledger.unused (hi.none_of_self hin awaiting_of_outside (by rw [hpc]; rfl)) _ hcur⟩

theorem Inv.send (hi : Inv st) {r : Refresh} {refreshToken : String} {m : Marks}
    (hpc : (st.tasks t).pc = .send r refreshToken m)
    (hr : runSection st t .ok = some st') : Inv st' := by
  obtain ⟨htask, -⟩ := hi.at hpc
  obtain ⟨hrec, hcur, hfresh⟩ := hi.before_send hpc
  have hin : (dist (st.tasks t).pc).isSome = true := by rw [hpc]; rfl
  simp only [runSection, hpc] at hr
  split at hr <;> cases hr
  · refine hi.inside (.awaitReply r refreshToken m) hin
      (hi.exclusive.stay rfl rfl (by rw [hpc]; rfl))
      (hi.owned.stay rfl (fun _ => rfl) (fun _ => rfl) (by rw [hpc]; rfl) (by simp)) rfl
      (fun _ => rfl) (fun h => h) ⟨rfl, by simp [carried], fun _ => htask.renews rfl⟩
      ⟨by simp [asking], by simp, by simp, by simp, ?_, by simp, by simp, by simp⟩
      ⟨?_, ?_, hi.ledger.issued, ?_, ⟨?_, ?_⟩⟩
    · intro r' rt seen h
      cases h
      exact hcur
    · intro hno
      exact hi.ledger.settled (all_of_update (by rw [hpc]; rfl) hno)
    · intro hno
      have hself : awaiting ((st.goto t (.awaitReply r refreshToken m)).tasks t).pc = false := hno t
      rw [State.goto_pc] at hself
      cases hself
    · intro c hc
      rcases List.mem_cons.mp hc with rfl | hc
      · exact hi.ledger.issued _ hcur
      · exact hi.ledger.known c hc
    · intro s hs
      rcases List.mem_cons.mp hs with rfl | hs
      · exact hrec
      · exact hi.ledger.rotated.current s hs
    · exact List.nodup_cons.mpr ⟨hfresh, hi.ledger.rotated.once⟩
  · exact hi.goto (by rw [hpc]; rfl) (by rw [hpc]; rfl) (by simp)
      ⟨rfl, by simp [carried], fun _ => htask.renews rfl⟩
      ⟨by simp [asking], by simp, by simp, by simp, by simp, by simp, by simp, by simp⟩
      (by rw [hpc]; rfl) (by rw [hpc]; rfl)

theorem Inv.storeLock (hi : Inv st) {w : Writer} {token : StoredToken}
    (hpc : (st.tasks t).pc = .storeLock w token)
    (hr : runSection st t .ok = some st') : Inv st' := by
  obtain ⟨htask, hholder⟩ := hi.at hpc
  cases w with
  | caller => cases htask.gets
  | refresh r m =>
    simp only [runSection, hpc] at hr
    split at hr <;> cases hr
    obtain ⟨hcur, hsome⟩ := hholder.lock _ _ rfl
    refine hi.next (.storeMemory (.refresh r m) token
      (PersistedToken.fromStored st.clock token)) (hi.exclusive.stay rfl rfl (by rw [hpc]; rfl))
      (hi.owned.stay rfl (instances_update (·.mutexes) rfl) (instances_update (·.refreshLock) rfl)
        (by rw [hpc]; rfl) (by simp)) rfl (instances_update (·.token) rfl) rfl rfl rfl
      ⟨rfl, by simp [carried], fun _ => htask.renews rfl⟩
      ⟨by simp [asking], by simp, by simp, by simp, by simp, by simp, ?_, by simp⟩
      (by rw [hpc]; rfl) (by rw [hpc]; rfl)
    intro w token' p h
    cases h
    exact ⟨⟨hcur, hcur⟩, hsome⟩

theorem Inv.storeMemory (hi : Inv st) {w : Writer} {token : StoredToken} {p : PersistedToken}
    (hpc : (st.tasks t).pc = .storeMemory w token p)
    (hr : runSection st t .ok = some st') : Inv st' := by
  obtain ⟨htask, hholder⟩ := hi.at hpc
  cases w with
  | caller => cases htask.gets
  | refresh r m =>
    have hrenew := htask.renews rfl
    obtain ⟨⟨-, hcur⟩, hsome⟩ := hholder.memory _ _ _ rfl
    have hset : Inv (st.setToken t (some token)) := by
      refine hi.setToken (fun _ => hrenew) fun u hinst ha => ?_
      rw [hi.safe_of_mutex (t := t) (m := r.mutex) (by rw [hpc]; rfl) (by rw [hpc]; rfl) u
        hinst] at ha
      cases ha
    have hmine : ((st.setToken t (some token)).inst t).token = some token := by
      show ((st.setToken t (some token)).instances (st.tasks t).inst).token = some token
      rw [State.setToken, State.setInst_instances, Function.update_self]
    simp only [runSection, hpc, Option.some.injEq] at hr
    subst hr
    refine hset.next (t := t) (.storeBackend (.refresh r m) p)
      (hset.exclusive.stay (t := t) rfl rfl (show _ = dist (st.tasks t).pc by rw [hpc]; rfl))
      (hset.owned.stay (t := t) rfl (fun _ => rfl) (fun _ => rfl)
        (show _ = mutex (st.tasks t).pc by rw [hpc]; rfl) (by simp)) rfl
      (fun _ => rfl) rfl rfl rfl ⟨rfl, by simp [carried], fun _ => hrenew⟩
      ⟨fun _ => ?_, by simp, by simp, by simp, by simp, by simp, by simp, ?_⟩
      (show _ = storing (st.tasks t).pc by rw [hpc]; rfl)
      (show _ = awaiting (st.tasks t).pc by rw [hpc]; rfl)
    · rw [hmine]
      rfl
    · intro w p' h
      cases h
      exact ⟨hcur, hsome⟩

theorem Inv.storeBackend (hi : Inv st) {w : Writer} {p : PersistedToken}
    (hpc : (st.tasks t).pc = .storeBackend w p)
    (hr : runSection st t .ok = some st') : Inv st' := by
  obtain ⟨htask, hholder⟩ := hi.at hpc
  cases w with
  | caller => cases htask.gets
  | refresh r m =>
    have hin : (dist (st.tasks t).pc).isSome = true := by rw [hpc]; rfl
    obtain ⟨hcur, hsome⟩ := hholder.backend _ _ rfl
    have hnew : p.refreshToken.isSome = true := by rw [hcur, hsome]
    simp only [runSection, hpc, Option.some.injEq] at hr
    subst hr
    refine hi.inside (.rawRead (.stored r)) hin
      (hi.exclusive.stay rfl rfl (by rw [hpc]; rfl))
      (hi.owned.stay rfl (instances_update (·.mutexes) rfl) (instances_update (·.refreshLock) rfl)
        (by rw [hpc]; rfl) (by simp)) rfl (instances_update (·.token) rfl) (fun _ => hnew)
      ⟨rfl, by simp [carried], fun _ => hnew⟩
      ⟨fun _ => hholder.asks rfl, by simp, by simp, by simp, by simp, by simp, by simp, by simp⟩
      ⟨fun _ => hcur.symm, fun hno => ?_, hi.ledger.issued, hi.ledger.known,
        ⟨hi.ledger.rotated.current, hi.ledger.rotated.once⟩⟩
    exact hi.ledger.unused (all_of_update (by rw [hpc]; rfl) hno)

theorem Inv.releaseDist (hi : Inv st) {r : Refresh} {result : Option StoredToken}
    (hpc : (st.tasks t).pc = .releaseDist r result)
    (hr : runSection st t .ok = some st') : Inv st' := by
  have hin : (dist (st.tasks t).pc).isSome = true := by rw [hpc]; rfl
  have hheld : r.holding = true := by
    have hholds := hi.exclusive.holds t
    rw [hpc] at hholds
    simpa [dist] using hholds
  have howner := hi.exclusive.guards.holder_eq hin
  simp only [runSection, hpc, hheld, Option.some.injEq] at hr
  subst hr
  refine hi.drop (by rw [hpc]; rfl) ?_ (by rw [hpc]; rfl) (by rw [hpc]; rfl)
  rw [releaseLock_of_owner howner]
  exact .leave hin (by simp [dist])

theorem Inv.run {answer : Answer} (hi : Inv st) (hrel : reliable st (.run t answer) = true)
    (hg : upToDate st (.run t answer) = true) (hr : runSection st t answer = some st') :
    Inv st' := by
  have hok : answer = .ok := by
    simp only [reliable, Bool.and_eq_true, decide_eq_true_eq] at hrel
    exact hrel.1
  subst hok
  have hgets := (hi.tasks t).gets
  cases hpc : (st.tasks t).pc with
  | rawRead want => exact hi.rawRead hpc hr
  | rawLoad want => exact hi.rawLoad hpc hr
  | rawWriteBack want token => exact hi.rawWriteBack hpc hr
  | getRefreshLock => exact hi.getRefreshLock hpc hr
  | awaitRefreshLock m => exact hi.awaitRefreshLock hpc hr
  | tryLock m deadline => exact hi.tryLock hpc hrel hr
  | adoptLoad m poll => exact hi.adoptLoad hpc hrel hg hr
  | adoptWrite m poll token => exact hi.adoptWrite hpc hr
  | send r refreshToken m => exact hi.send hpc hr
  | storeLock w token => exact hi.storeLock hpc hr
  | storeMemory w token p => exact hi.storeMemory hpc hr
  | storeBackend w p => exact hi.storeBackend hpc hr
  | releaseDist r result => exact hi.releaseDist hpc hr
  | idle => simp [runSection, hpc] at hr
  | awaitReply r refreshToken m => simp [runSection, hpc] at hr
  | done result => simp [runSection, hpc] at hr
  | panicked => simp [runSection, hpc] at hr
  | _ =>
    rw [hpc] at hgets
    cases hgets

/-- What a rotating server answers to its current refresh token. -/
theorem rotates_cases {response : Option TokenResponse} {r : Refresh} {refreshToken : String}
    {m : Marks} (hpc : (st.tasks t).pc = .awaitReply r refreshToken m)
    (hcur : st.server.current = some refreshToken)
    (h : rotates st (.reply t response) = true) :
    ∃ access next expiresIn, response = some ⟨some access, some next, expiresIn⟩ ∧
      next ∉ st.server.issued := by
  simp only [rotates, hpc, hcur, if_true] at h
  split at h
  · rename_i access next expiresIn
    exact ⟨access, next, expiresIn, rfl, of_decide_eq_true h⟩
  · cases h

theorem Inv.reply {response : Option TokenResponse} (hi : Inv st)
    (hg : rotates st (.reply t response) = true)
    (hr : replySection st t response = some st') : Inv st' := by
  obtain ⟨r, refreshToken, m, hpc, h⟩ := reply_cases hr
  obtain ⟨htask, hholder⟩ := hi.at hpc
  have hin : (dist (st.tasks t).pc).isSome = true := by rw [hpc]; rfl
  obtain ⟨access, next, expiresIn, rfl, hfresh⟩ :=
    rotates_cases hpc (hholder.awaits r refreshToken m rfl) hg
  rcases h with ⟨newToken, hnew, rfl⟩ | ⟨hnone, -⟩
  · have hrt : newToken.refreshToken = some next := by
      simp only [TokenStore.refreshed, Option.bind_some, Option.map_some, Option.getD_some,
        Option.some.injEq] at hnew
      rw [← hnew]
    refine hi.inside (.storeLock (.refresh r m) newToken) hin
      (hi.exclusive.stay rfl rfl (by rw [hpc]; rfl))
      (hi.owned.stay rfl (fun _ => rfl) (fun _ => rfl) (by rw [hpc]; rfl) (by simp)) rfl
      (fun _ => rfl) (fun h => h) ⟨rfl, by simp [carried], fun _ => htask.renews rfl⟩
      ⟨by simp [asking], by simp, by simp, by simp, by simp, ?_, by simp, by simp⟩
      ⟨?_, ?_, ?_, ?_, ⟨hi.ledger.rotated.current, hi.ledger.rotated.once⟩⟩
    · intro w token h
      cases h
      exact ⟨hrt, rfl⟩
    · intro hno
      have hself : storing ((st.goto t (.storeLock (.refresh r m) newToken)).tasks t).pc = false :=
        hno t
      rw [State.goto_pc] at hself
      cases hself
    · intro _ c hc hmem
      cases hc
      exact hfresh (hi.ledger.known _ hmem)
    · intro c hc
      cases hc
      exact List.mem_cons_self
    · intro c hc
      exact List.mem_cons_of_mem _ (hi.ledger.known c hc)
  · simp [TokenStore.refreshed] at hnone

/-- An operation is called on an instance. -/
theorem Inv.call (hi : Inv st) (hpc : (st.tasks t).pc = .idle) (inst : Nat) :
    Inv (st.setTask t { inst := inst, pc := .rawRead .first }) := by
  refine ⟨⟨?_, ?_⟩, ⟨fun i m => ?_, ?_⟩, hi.memory, ?_, ?_, ⟨?_, ?_, hi.ledger.issued,
    hi.ledger.known, ⟨hi.ledger.rotated.current, hi.ledger.rotated.once⟩⟩⟩
  · exact hi.exclusive.guards.move (by simp [hpc, dist, refreshOf])
  · exact (forall_update_iff (P := fun _ (task : Task) => dist task.pc ≠ some false)).mpr
      ⟨by simp [dist, refreshOf], fun u _ => hi.exclusive.holds u⟩
  · exact (hi.owned.guards i m).move (by simp [hpc, mutex, mutexOf])
  · exact (forall_update_iff (P := fun _ (task : Task) => ∀ m,
      mutex task.pc = some m ∨ task.pc = .awaitRefreshLock m →
        (st.instances task.inst).refreshLock = some m)).mpr
      ⟨by simp [mutex, mutexOf], fun u _ => hi.owned.one u⟩
  · exact (forall_update_iff (P := fun _ (task : Task) => TaskOk (recorded st) task.pc)).mpr
      ⟨⟨rfl, by simp [carried], by simp [renewing, mutex, mutexOf]⟩, fun u _ => hi.tasks u⟩
  · exact (forall_update_iff (P := fun _ (task : Task) =>
      HolderOk (recorded st) (st.instances task.inst).token st.server.current task.pc)).mpr
      ⟨.outside rfl rfl, fun u _ => hi.holder u⟩
  · intro hno
    refine hi.ledger.settled fun u => ?_
    by_cases hu : u = t
    · rw [hu, hpc]
      rfl
    · exact (congrArg (fun task : Task => storing task.pc)
        (Function.update_of_ne hu _ st.tasks)).symm.trans (hno u)
  · intro hno
    refine hi.ledger.unused fun u => ?_
    by_cases hu : u = t
    · rw [hu, hpc]
      rfl
    · exact (congrArg (fun task : Task => awaiting task.pc)
        (Function.update_of_ne hu _ st.tasks)).symm.trans (hno u)

/-- A record that runs out has no refresh token. -/
theorem recorded_lapse (h : TokenProtocol.step st .lapse = some st') :
    recorded st = none ∧ st' = { st with record := none } := by
  simp only [TokenProtocol.step] at h
  cases hrec : st.record with
  | none => simp [hrec] at h
  | some p =>
    simp only [hrec] at h
    split at h
    · rename_i hnone
      cases h
      exact ⟨by simpa [recorded, hrec] using hnone, rfl⟩
    · cases h

theorem Inv.step {l : Label} (hi : Inv st) (hget : onlyGet st l = true)
    (hrel : reliable st l = true) (hrot : rotates st l = true) (hg : upToDate st l = true)
    (hst : step st l = some st') : Inv st' := by
  cases l with
  | tick d unix =>
    cases hst
    exact ⟨⟨hi.exclusive.guards, hi.exclusive.holds⟩, ⟨hi.owned.guards, hi.owned.one⟩, hi.memory,
      hi.tasks, hi.holder, ⟨hi.ledger.settled, hi.ledger.unused, hi.ledger.issued,
      hi.ledger.known, ⟨hi.ledger.rotated.current, hi.ledger.rotated.once⟩⟩⟩
  | call t inst op =>
    have hop : op = .get := by
      cases op <;> first | rfl | cases hget
    subst hop
    simp only [TokenProtocol.step] at hst
    split at hst
    · rename_i hpc
      cases hst
      exact hi.call hpc inst
    · cases hst
  | run t answer => exact hi.run hrel hg hst
  | reply t response => exact hi.reply hrot hst
  | lapse =>
    obtain ⟨hnone, rfl⟩ := recorded_lapse hst
    have hsame : recorded { st with record := none } = recorded st := by
      rw [hnone]
      rfl
    refine ⟨⟨hi.exclusive.guards, hi.exclusive.holds⟩, ⟨hi.owned.guards, hi.owned.one⟩, ?_, ?_, ?_,
      ⟨?_, hi.ledger.unused, hi.ledger.issued, hi.ledger.known,
        ⟨hi.ledger.rotated.current, hi.ledger.rotated.once⟩⟩⟩
    · rw [hsame]
      exact hi.memory
    · rw [hsame]
      exact hi.tasks
    · rw [hsame]
      exact hi.holder
    · rw [hsame]
      exact hi.ledger.settled

theorem inv_init (clock : Clock) (refreshConfig : Bool) (record : Option PersistedToken)
    (cached : Nat → Bool) : Inv (init clock refreshConfig record cached) := by
  refine ⟨⟨fun t => ?_, fun t => ?_⟩, ⟨fun i m t => ?_, fun t m h => ?_⟩, ?_, fun t => ?_,
    fun t => .outside rfl rfl, ⟨fun _ => rfl, ?_, ?_, ?_, ⟨?_, List.nodup_nil⟩⟩⟩
  · simp [init, idleTask, dist]
  · simp [init, idleTask, dist]
  · simp [init, idleTask, mutex]
  · simp [init, idleTask, mutex] at h
  · intro i token h hs
    simp only [init] at h
    split at h
    · obtain ⟨p, rfl, rfl⟩ := Option.map_eq_some_iff.mp h
      exact hs
    · cases h
  · exact ⟨rfl, by simp [init, idleTask, carried], by simp [init, idleTask, renewing, mutex]⟩
  · intro _ c _
    simp [init]
  · intro c hc
    simp only [init] at hc ⊢
    rw [hc]
    simp
  · simp [init]
  · simp [init]

end Rotation

/-! ## No replay -/

/-- **Up-to-date instances do not replay.** On any number of instances over a
reliable backend, against a server that rotates the session's refresh token with
every refresh, in every run of `get_token` in which whoever finds the persisted
record expired has its refresh token in memory, each submission is of the
persisted record's refresh token and none is made twice. -/
theorem rotated_of_upToDate (clock : Clock) (refreshConfig : Bool)
    (record : Option PersistedToken) (cached : Nat → Bool) (st : State)
    (hr : system.Reach (fun st l => onlyGet st l = true ∧ reliable st l = true ∧
        rotates st l = true ∧ upToDate st l = true)
      (init clock refreshConfig record cached) st) : Rotated st :=
  (hr.invariant (Rotation.inv_init clock refreshConfig record cached)
    fun _ _ _ hi hg hs => hi.step hg.1 hg.2.1 hg.2.2.1 hg.2.2.2 hs).ledger.rotated

namespace Rotation

/-- Task `t` gets the token on an instance that has it in memory, expired, and
refreshes it to `access` and `next`, good for a minute. -/
def refreshing (t inst : Nat) (access next : String) : List Label :=
  .call t inst .get :: List.replicate 8 (.run t .ok) ++
    .reply t (some ⟨some access, some next, some 60⟩) :: List.replicate 5 (.run t .ok)

end Rotation

open Rotation in
/-- One instance refreshes twice. -/
theorem rotated_on_one_instance :
    ∃ st : State, Rotated st ∧ st.submitted.map (·.token) = ["r2", "r1"] := by
  obtain ⟨st, hr, hp⟩ := System.exists_reach_of_run (S := system)
    (G := fun st l => onlyGet st l = true ∧ reliable st l = true ∧
      rotates st l = true ∧ upToDate st l = true)
    (s := init ⟨0, 0⟩ true (some ⟨"a1", some "r1", some 0, none⟩) fun _ => true)
    (w := refreshing 0 0 "a2" "r2" ++ [.tick (Duration.fromSecs 60) (Duration.fromSecs 60)] ++
      refreshing 1 0 "a3" "r3")
    (p := fun st => decide (st.submitted.map (·.token) = ["r2", "r1"])) (by decide +kernel)
  exact ⟨st, rotated_of_upToDate _ _ _ _ st hr, of_decide_eq_true hp⟩

open Rotation in
/-- A second instance has the token in memory when the first one refreshes it.
Once the new token is expired too, the second submits the old refresh token. -/
theorem stale_instance_replays :
    ¬ ∀ (clock : Clock) (refreshConfig : Bool) (record : Option PersistedToken)
      (cached : Nat → Bool) (st : State),
      system.Reach (fun st l => onlyGet st l = true ∧ reliable st l = true ∧
          rotates st l = true) (init clock refreshConfig record cached) st → Rotated st := by
  intro h
  obtain ⟨st, hr, hp⟩ := System.exists_reach_of_run (S := system)
    (G := fun st l => onlyGet st l = true ∧ reliable st l = true ∧ rotates st l = true)
    (s := init ⟨0, 0⟩ true (some ⟨"a1", some "r1", some 0, none⟩) fun _ => true)
    (w := refreshing 0 0 "a2" "r2" ++ [.tick (Duration.fromSecs 60) (Duration.fromSecs 60)] ++
      .call 1 1 .get :: List.replicate 8 (.run 1 .ok))
    (p := fun st => decide (st.submitted.map (·.token) = ["r1", "r1"])) (by decide +kernel)
  have honce := (h _ _ _ _ st hr).once
  rw [of_decide_eq_true hp] at honce
  exact absurd honce (by decide)

end McpFramework.TokenProtocol
