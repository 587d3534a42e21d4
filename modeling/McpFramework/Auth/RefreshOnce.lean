import McpFramework.Auth.TokenDeployment
import McpFramework.Auth.RefreshRotation

/-!
# Auth — RefreshOnce

Concurrent `get_token` calls on a store without a backend refresh an expired
token once.

Whoever finds the token expired takes the session's mutex, made on demand, and
looks again. The first to look finds it still expired and keeps the mutex until
the new token is in memory; everybody after finds that one. So the state of the
whole is that of the one refresh (`Stage`), and a call without the mutex does
not depend on it.
-/

namespace McpFramework.TokenProtocol

open Lib

/-! ## The runs -/

/-- Ghost state beside the store's: the tokens the authorization server has
answered with, the last one first, and how many sections each call has run. -/
structure Renewal where
  store : State
  answers : List StoredToken
  taken : Nat → Nat

/-- The token that an answer of the token endpoint amounts to. -/
def Renewal.answer (r : Renewal) : Move → Option StoredToken
  | .step (.reply t response) =>
    match (r.store.tasks t).pc with
    | .awaitReply _ refreshToken _ => response.bind (TokenStore.refreshed r.store.clock refreshToken)
    | _ => none
  | _ => none

/-- The step is one of task `t`. -/
def Move.by : Move → Nat → Bool
  | .step (.run u _), t => decide (u = t)
  | .step (.reply u _), t => decide (u = t)
  | _, _ => false

def Renewal.step (r : Renewal) (m : Move) : Option Renewal :=
  (move false r.store m).map fun st =>
    { store := st
      answers := (r.answer m).toList ++ r.answers
      taken := fun t => if m.by t then r.taken t + 1 else r.taken t }

def renewals : System Renewal Move := ⟨Renewal.step⟩

/-- Only `get_token` is called, on one instance, and the authorization server
answers with a token. -/
def onlyGets (r : Renewal) : Move → Bool
  | .step (.call _ inst .get) => decide (inst = 0)
  | .step (.call _ _ _) => false
  | .step (.reply t response) => (r.answer (.step (.reply t response))).isSome
  | .step _ => true
  | .refresh _ _ => false

/-- A store that holds a token and may have made a mutex for its session. -/
def holding (clock : Clock) (token : StoredToken) (refreshLock : Option Nat) (nextMutex : Nat) :
    Renewal :=
  { store :=
      { init clock true none (fun _ => false) with
        instances := fun _ =>
          { token := some token, mutationLock := none, refreshLock := refreshLock
            mutexes := fun _ => none, nextMutex := nextMutex } }
    answers := []
    taken := fun _ => 0 }

/-- A call that has not returned. -/
def Pc.unfinished : Pc → Bool
  | .idle => false
  | .done _ => false
  | _ => true

/-- The task can take a step: its next section, or one the token endpoint's
answer lets it take. -/
def Ready (st : State) (t : Nat) : Prop :=
  (unbackedSection st t).isSome = true ∨
    ∀ response, (replySection st t response).isSome = true

namespace Once

open Rotation

/-! ## The one refresh -/

/-- How far it is. -/
inductive Stage where
  | fresh
  | sent
  | answered (token : StoredToken)
  | stored (token : StoredToken)

namespace Stage

def memory (old : StoredToken) : Stage → StoredToken
  | .stored token => token
  | _ => old

def submitted (refreshToken : String) : Stage → List String
  | .fresh => []
  | _ => [refreshToken]

def answers : Stage → List StoredToken
  | .fresh => []
  | .sent => []
  | .answered token => [token]
  | .stored token => [token]

/-- Between the request and the new token's way into memory. -/
def pending : Stage → Bool
  | .sent => true
  | .answered _ => true
  | _ => false

end Stage

/-- What a call knows of the stage. -/
def TaskOk (refreshToken : String) (stage : Stage) : Pc → Prop
  | .idle => True
  | .rawRead .first => True
  | .getRefreshLock => True
  | .awaitRefreshLock _ => True
  | .rawRead (.recheck _) => True
  | .tryLock _ _ => stage = .fresh
  | .rawRead (.submit _) => stage = .fresh
  | .send _ submitted _ => stage = .fresh ∧ submitted = refreshToken
  | .awaitReply _ submitted _ => stage = .sent ∧ submitted = refreshToken
  | .storeLock (.refresh _ _) token => stage = .answered token
  | .storeMemory (.refresh _ _) token _ => stage = .answered token
  | .storeBackend (.refresh _ _) _ => ∃ token, stage = .stored token
  | .rawRead (.stored _) => ∃ token, stage = .stored token
  | .releaseDist _ result => ∃ token, stage = .stored token ∧ result = some token
  | .done result => ∃ token, stage = .stored token ∧ result = some token
  | _ => False

/-- The call is the one that refreshes. -/
def refreshing : Pc → Bool
  | .awaitReply _ _ _ => true
  | .storeLock (.refresh _ _) _ => true
  | .storeMemory (.refresh _ _) _ _ => true
  | _ => false

/-- How many sections a call may still run. -/
def rank : Pc → Nat
  | .idle => 13
  | .rawRead .first => 13
  | .getRefreshLock => 12
  | .awaitRefreshLock _ => 11
  | .rawRead (.recheck _) => 10
  | .tryLock _ _ => 9
  | .rawRead (.submit _) => 8
  | .send _ _ _ => 7
  | .awaitReply _ _ _ => 6
  | .storeLock _ _ => 5
  | .storeMemory _ _ _ => 4
  | .storeBackend _ _ => 3
  | .rawRead (.stored _) => 2
  | .releaseDist _ _ => 1
  | _ => 0

/-! ## The locks of the instance -/

structure Locks (inst : Instance) (tasks : Nat → Task) : Prop where
  mutex : ∀ m, Exact (inst.mutexes m) (fun task : Task => mutex task.pc = some m) tasks
  one : ∀ t m, Rotation.mutex (tasks t).pc = some m ∨ (tasks t).pc = .awaitRefreshLock m →
    inst.refreshLock = some m
  mutation : Exact inst.mutationLock (fun task : Task => task.pc.inMutation = true) tasks

section Locks

variable {inst inst' : Instance} {tasks : Nat → Task} {t u : Nat} {pc : Pc} {m m' : Nat}

/-- There is one mutex, and one call has it. -/
theorem Locks.alone (h : Locks inst tasks) (ht : Rotation.mutex (tasks t).pc = some m)
    (hu : Rotation.mutex (tasks u).pc = some m') : u = t := by
  have hlock := h.one t m (.inl ht)
  have hlock' := h.one u m' (.inl hu)
  rw [hlock] at hlock'
  cases hlock'
  exact (h.mutex m).guards.unique hu ht

theorem Locks.next (h : Locks inst tasks)
    (hmutex : ∀ m, Exact (inst'.mutexes m) (fun task : Task => Rotation.mutex task.pc = some m)
      (Function.update tasks t { tasks t with pc := pc }))
    (hkeep : ∀ m, inst.refreshLock = some m → inst'.refreshLock = some m)
    (hone : ∀ m, Rotation.mutex pc = some m ∨ pc = .awaitRefreshLock m →
      inst'.refreshLock = some m)
    (hmutation : Exact inst'.mutationLock (fun task : Task => task.pc.inMutation = true)
      (Function.update tasks t { tasks t with pc := pc })) :
    Locks inst' (Function.update tasks t { tasks t with pc := pc }) :=
  ⟨hmutex, (forall_update_iff (P := fun _ (task : Task) => ∀ m,
      Rotation.mutex task.pc = some m ∨ task.pc = .awaitRefreshLock m →
        inst'.refreshLock = some m)).mpr ⟨hone, fun u _ m hu => hkeep m (h.one u m hu)⟩, hmutation⟩

/-- A call goes on with the locks it has. -/
theorem Locks.stay (h : Locks inst tasks) (hmutexes : inst'.mutexes = inst.mutexes)
    (hmutation : inst'.mutationLock = inst.mutationLock)
    (hkeep : ∀ m, inst.refreshLock = some m → inst'.refreshLock = some m)
    (hpc : Rotation.mutex pc = Rotation.mutex (tasks t).pc)
    (hin : pc.inMutation = (tasks t).pc.inMutation)
    (hawait : ∀ m, pc = .awaitRefreshLock m → inst'.refreshLock = some m) :
    Locks inst' (Function.update tasks t { tasks t with pc := pc }) := by
  refine h.next (fun m => ?_) hkeep ?_ ?_
  · rw [hmutexes]
    exact (h.mutex m).move (by simp only [hpc])
  · rintro m (hm | hm)
    · exact hkeep m (h.one t m (.inl (hpc ▸ hm)))
    · exact hawait m hm
  · rw [hmutation]
    exact h.mutation.move (by simp only [hin])

/-- A call takes or gives back the session's mutex. -/
theorem Locks.mutexMoves (h : Locks inst tasks) {holder : Option Nat}
    (hmutexes : inst'.mutexes = Function.update inst.mutexes m holder)
    (hmutation : inst'.mutationLock = inst.mutationLock)
    (hkeep : inst'.refreshLock = inst.refreshLock)
    (hmoved : Exact holder (fun task : Task => Rotation.mutex task.pc = some m)
      (Function.update tasks t { tasks t with pc := pc }))
    (hother : ∀ m', m' ≠ m →
      (Rotation.mutex pc = some m' ↔ Rotation.mutex (tasks t).pc = some m'))
    (hin : pc.inMutation = (tasks t).pc.inMutation)
    (hlock : ∀ m', Rotation.mutex pc = some m' → inst.refreshLock = some m')
    (hawait : ∀ m', pc ≠ .awaitRefreshLock m') :
    Locks inst' (Function.update tasks t { tasks t with pc := pc }) := by
  refine h.next (fun m' => ?_) (fun m' hm => hkeep.trans hm) ?_ ?_
  · rw [hmutexes]
    by_cases hm : m' = m
    · subst hm
      rw [Function.update_self]
      exact hmoved
    · rw [Function.update_of_ne hm]
      exact (h.mutex m').move (hother m' hm)
  · rintro m' (hm | hm)
    · exact hkeep.trans (hlock m' hm)
    · exact absurd hm (hawait m')
  · rw [hmutation]
    exact h.mutation.move (by simp only [hin])

/-- A call takes or gives back the mutation lock. -/
theorem Locks.mutationMoves (h : Locks inst tasks)
    (hmutexes : inst'.mutexes = inst.mutexes) (hkeep : inst'.refreshLock = inst.refreshLock)
    (hmoved : Exact inst'.mutationLock (fun task : Task => task.pc.inMutation = true)
      (Function.update tasks t { tasks t with pc := pc }))
    (hpc : Rotation.mutex pc = Rotation.mutex (tasks t).pc)
    (hawait : ∀ m, pc ≠ .awaitRefreshLock m) :
    Locks inst' (Function.update tasks t { tasks t with pc := pc }) := by
  refine h.next (fun m => ?_) (fun m hm => hkeep.trans hm) ?_ hmoved
  · rw [hmutexes]
    exact (h.mutex m).move (by simp only [hpc])
  · rintro m (hm | hm)
    · exact hkeep.trans (h.one t m (.inl (hpc ▸ hm)))
    · exact absurd hm (hawait m)

end Locks

/-! ## The invariant -/

structure Inv (old : StoredToken) (refreshToken : String) (r : Renewal) (stage : Stage) : Prop where
  single : ∀ t, (r.store.tasks t).inst = 0
  config : r.store.refreshConfig = true
  expired : old.isExpired r.store.clock.now = true
  token : (r.store.instances 0).token = some (stage.memory old)
  submitted : r.store.submitted.map (·.token) = stage.submitted refreshToken
  answers : r.answers = stage.answers
  locks : Locks (r.store.instances 0) r.store.tasks
  tasks : ∀ t, TaskOk refreshToken stage (r.store.tasks t).pc
  worker : stage.pending = true → ∃ t, refreshing (r.store.tasks t).pc = true
  steps : ∀ t, r.taken t + rank (r.store.tasks t).pc ≤ 13

section Steps

variable {old : StoredToken} {refreshToken : String} {r : Renewal} {stage stage' : Stage}
  {st st' : State} {t : Nat} {pc : Pc} {answers : List StoredToken} {taken : Nat → Nat}

theorem mutex_of_refreshing (h : refreshing pc = true) : ∃ m, mutex pc = some m := by
  cases pc with
  | awaitReply r refreshToken seen => exact ⟨r.mutex, rfl⟩
  | storeLock w token =>
    cases w with
    | caller => cases h
    | refresh r seen => exact ⟨r.mutex, rfl⟩
  | storeMemory w token p =>
    cases w with
    | caller => cases h
    | refresh r seen => exact ⟨r.mutex, rfl⟩
  | _ => cases h

/-- Before the new token is in memory, a call without the mutex knows nothing of
the stage. -/
theorem TaskOk.other (h : TaskOk refreshToken stage pc) (hmutex : mutex pc = none)
    (hstage : ∀ token, stage ≠ .stored token) : TaskOk refreshToken stage' pc := by
  cases pc with
  | idle => trivial
  | getRefreshLock => trivial
  | awaitRefreshLock m => trivial
  | rawRead want => cases want <;> trivial
  | done result =>
    obtain ⟨token, hs, -⟩ := h
    exact absurd hs (hstage token)
  | storeLock w token => cases w <;> first | exact h.elim | simp [mutex] at hmutex
  | storeMemory w token p => cases w <;> first | exact h.elim | simp [mutex] at hmutex
  | storeBackend w p => cases w <;> first | exact h.elim | simp [mutex] at hmutex
  | _ => first | exact h.elim | simp [mutex] at hmutex

/-- Task `t` takes a section. -/
def ran (taken : Nat → Nat) (t : Nat) : Nat → Nat :=
  fun u => if t = u then taken u + 1 else taken u

theorem steps_ran (h : ∀ u, r.taken u + rank (r.store.tasks u).pc ≤ 13)
    (hrank : rank pc < rank (r.store.tasks t).pc) (u : Nat) :
    ran r.taken t u +
      rank (Function.update r.store.tasks t { r.store.tasks t with pc := pc } u).pc ≤ 13 := by
  by_cases hu : u = t
  · subst hu
    have hstep := h u
    rw [Function.update_self, ran, if_pos rfl]
    show r.taken u + 1 + rank pc ≤ 13
    omega
  · rw [Function.update_of_ne hu, ran, if_neg (Ne.symm hu)]
    exact h u

/-- A section that may bring the refresh forward. -/
theorem Inv.next (hi : Inv old refreshToken r stage)
    (htasks : st'.tasks = Function.update r.store.tasks t { r.store.tasks t with pc := pc })
    (hclock : st'.clock = r.store.clock) (hconfig : st'.refreshConfig = r.store.refreshConfig)
    (htoken : (st'.instances 0).token = some (stage'.memory old))
    (hsubmitted : st'.submitted.map (·.token) = stage'.submitted refreshToken)
    (hanswers : answers = stage'.answers)
    (hlocks : Locks (st'.instances 0)
      (Function.update r.store.tasks t { r.store.tasks t with pc := pc }))
    (htask : TaskOk refreshToken stage' pc)
    (hothers : ∀ u, u ≠ t → TaskOk refreshToken stage' (r.store.tasks u).pc)
    (hworker : stage'.pending = true → ∃ u, refreshing (st'.tasks u).pc = true)
    (hrank : rank pc < rank (r.store.tasks t).pc) :
    Inv old refreshToken ⟨st', answers, ran r.taken t⟩ stage' := by
  refine ⟨?_, hconfig.trans hi.config, ?_, htoken, hsubmitted, hanswers, ?_, ?_, hworker, ?_⟩
  · show ∀ u, (st'.tasks u).inst = 0
    rw [htasks]
    exact (forall_update_iff (P := fun _ (task : Task) => task.inst = 0)).mpr
      ⟨hi.single t, fun u _ => hi.single u⟩
  · show old.isExpired st'.clock.now = true
    rw [hclock]
    exact hi.expired
  · show Locks (st'.instances 0) st'.tasks
    rw [htasks]
    exact hlocks
  · show ∀ u, TaskOk refreshToken stage' (st'.tasks u).pc
    rw [htasks]
    exact (forall_update_iff (P := fun _ (task : Task) => TaskOk refreshToken stage' task.pc)).mpr
      ⟨htask, hothers⟩
  · show ∀ u, ran r.taken t u + rank (st'.tasks u).pc ≤ 13
    rw [htasks]
    exact steps_ran hi.steps hrank

/-- A section that leaves the refresh where it is. -/
theorem Inv.stay (hi : Inv old refreshToken r stage)
    (htasks : st'.tasks = Function.update r.store.tasks t { r.store.tasks t with pc := pc })
    (hclock : st'.clock = r.store.clock) (hconfig : st'.refreshConfig = r.store.refreshConfig)
    (htoken : (st'.instances 0).token = (r.store.instances 0).token)
    (hsubmitted : st'.submitted = r.store.submitted)
    (hlocks : Locks (st'.instances 0)
      (Function.update r.store.tasks t { r.store.tasks t with pc := pc }))
    (htask : TaskOk refreshToken stage pc)
    (hworker : refreshing (r.store.tasks t).pc = true → refreshing pc = true)
    (hrank : rank pc < rank (r.store.tasks t).pc) :
    Inv old refreshToken ⟨st', r.answers, ran r.taken t⟩ stage := by
  refine hi.next htasks hclock hconfig (htoken.trans hi.token) (by rw [hsubmitted, hi.submitted])
    hi.answers hlocks htask (fun u _ => hi.tasks u) (fun hpending => ?_) hrank
  obtain ⟨u, hu⟩ := hi.worker hpending
  rw [htasks]
  by_cases hut : u = t
  · subst hut
    exact ⟨u, by rw [Function.update_self]; exact hworker hu⟩
  · exact ⟨u, by rw [Function.update_of_ne hut]; exact hu⟩

/-- The call that refreshes brings it forward. Nobody else has the mutex. -/
theorem Inv.advance (hi : Inv old refreshToken r stage) {m : Nat}
    (hmutex : mutex (r.store.tasks t).pc = some m) (hstage : ∀ token, stage ≠ .stored token)
    (htasks : st'.tasks = Function.update r.store.tasks t { r.store.tasks t with pc := pc })
    (hclock : st'.clock = r.store.clock) (hconfig : st'.refreshConfig = r.store.refreshConfig)
    (htoken : (st'.instances 0).token = some (stage'.memory old))
    (hsubmitted : st'.submitted.map (·.token) = stage'.submitted refreshToken)
    (hanswers : answers = stage'.answers)
    (hlocks : Locks (st'.instances 0)
      (Function.update r.store.tasks t { r.store.tasks t with pc := pc }))
    (htask : TaskOk refreshToken stage' pc)
    (hworker : stage'.pending = true → refreshing pc = true)
    (hrank : rank pc < rank (r.store.tasks t).pc) :
    Inv old refreshToken ⟨st', answers, ran r.taken t⟩ stage' := by
  refine hi.next htasks hclock hconfig htoken hsubmitted hanswers hlocks htask (fun u hu => ?_)
    (fun hpending => ⟨t, ?_⟩) hrank
  · refine (hi.tasks u).other ?_ hstage
    cases hm : mutex (r.store.tasks u).pc with
    | none => rfl
    | some m' => exact absurd (hi.locks.alone hmutex hm) hu
  · rw [htasks, Function.update_self]
    exact hworker hpending

/-! ## One section at a time -/

theorem Inv.inst_eq (hi : Inv old refreshToken r stage) :
    r.store.inst t = r.store.instances 0 := by
  rw [State.inst, hi.single t]

theorem Inv.setInst_eq (hi : Inv old refreshToken r stage) (inst : Instance) :
    (r.store.setInst t inst).instances 0 = inst := by
  rw [State.setInst_instances, hi.single t, Function.update_self]

/-- What the call finds: the old token, expired, or the new one, which is not. -/
theorem Inv.finds (hi : Inv old refreshToken r stage)
    (hgood : ∀ token ∈ r.answers, token.isExpired r.store.clock.now = false) :
    ∃ token, (r.store.instances 0).token = some token ∧
      ((token = old ∧ ∀ new, stage ≠ .stored new) ∨
        (stage = .stored token ∧ token.isExpired r.store.clock.now = false)) := by
  have htoken := hi.token
  cases stage with
  | stored token =>
    refine ⟨token, htoken, .inr ⟨rfl, hgood token ?_⟩⟩
    rw [hi.answers]
    exact List.mem_singleton_self token
  | _ => exact ⟨old, htoken, .inl ⟨rfl, by simp⟩⟩

/-- A section that changes nothing but where the call is. -/
theorem Inv.goto (hi : Inv old refreshToken r stage) (hmutex : mutex pc = mutex (r.store.tasks t).pc)
    (hin : pc.inMutation = (r.store.tasks t).pc.inMutation)
    (hawait : ∀ m, pc = .awaitRefreshLock m → (r.store.instances 0).refreshLock = some m)
    (htask : TaskOk refreshToken stage pc)
    (hworker : refreshing (r.store.tasks t).pc = true → refreshing pc = true)
    (hrank : rank pc < rank (r.store.tasks t).pc) :
    Inv old refreshToken ⟨r.store.goto t pc, r.answers, ran r.taken t⟩ stage :=
  hi.stay rfl rfl rfl rfl rfl (hi.locks.stay rfl rfl (fun _ h => h) hmutex hin hawait) htask hworker
    hrank

theorem Inv.first (hi : Inv old refreshToken r stage) (hold : old.refreshToken = some refreshToken)
    (hgood : ∀ token ∈ r.answers, token.isExpired r.store.clock.now = false)
    (hpc : (r.store.tasks t).pc = .rawRead .first)
    (hr : unbackedSection r.store t = some st') :
    Inv old refreshToken ⟨st', r.answers, ran r.taken t⟩ stage := by
  obtain ⟨token, htoken, hcase⟩ := hi.finds hgood
  simp only [unbackedSection, runSection, hpc, hi.inst_eq, htoken, Option.some.injEq] at hr
  subst hr
  rcases hcase with ⟨rfl, -⟩ | ⟨hstage, hlive⟩
  · simp only [afterRaw, hi.expired, hold, hi.config, Option.isSome_some, Bool.and_self, if_true]
    exact hi.goto (by rw [hpc]; rfl) (by rw [hpc]; rfl) (by simp) trivial
      (by simp [hpc, refreshing]) (by simp [hpc, rank])
  · simp only [afterRaw, hlive, Bool.false_eq_true, if_false]
    exact hi.goto (by rw [hpc]; rfl) (by rw [hpc]; rfl) (by simp) ⟨token, hstage, rfl⟩
      (by simp [hpc, refreshing]) (by simp [hpc, rank])

theorem Inv.getRefreshLock (hi : Inv old refreshToken r stage)
    (hpc : (r.store.tasks t).pc = .getRefreshLock)
    (hr : unbackedSection r.store t = some st') :
    Inv old refreshToken ⟨st', r.answers, ran r.taken t⟩ stage := by
  simp only [unbackedSection, runSection, hpc, hi.inst_eq] at hr
  cases hl : (r.store.instances 0).refreshLock with
  | some m =>
    simp only [hl, Option.some.injEq] at hr
    subst hr
    refine hi.goto (by rw [hpc]; rfl) (by rw [hpc]; rfl) ?_ trivial (by simp [hpc, refreshing])
      (by simp [hpc, rank])
    rintro m' h
    cases h
    exact hl
  | none =>
    simp only [hl, Option.some.injEq] at hr
    subst hr
    have hinst := hi.setInst_eq (t := t)
      { r.store.instances 0 with refreshLock := some (r.store.instances 0).nextMutex,
                                 nextMutex := (r.store.instances 0).nextMutex + 1 }
    refine hi.stay rfl rfl rfl (by rw [State.goto, State.setTask, hinst]) rfl ?_ trivial
      (by simp [hpc, refreshing]) (by simp [hpc, rank])
    show Locks ((r.store.setInst t _).instances 0) _
    rw [hinst]
    refine hi.locks.stay rfl rfl (fun m h => ?_) (by rw [hpc]; rfl) (by rw [hpc]; rfl) ?_
    · rw [hl] at h
      cases h
    · rintro m h
      cases h
      rfl

theorem Inv.awaitRefreshLock (hi : Inv old refreshToken r stage) {m : Nat}
    (hpc : (r.store.tasks t).pc = .awaitRefreshLock m)
    (hr : unbackedSection r.store t = some st') :
    Inv old refreshToken ⟨st', r.answers, ran r.taken t⟩ stage := by
  simp only [unbackedSection, runSection, hpc, hi.inst_eq] at hr
  cases hfree : (r.store.instances 0).mutexes m with
  | some u => simp [hfree] at hr
  | none =>
    simp only [hfree, Option.some.injEq] at hr
    subst hr
    have hinst := hi.setInst_eq (t := t)
      { r.store.instances 0 with
        mutexes := Function.update (r.store.instances 0).mutexes m (some t) }
    have hmutex := hi.locks.mutex m
    rw [hfree] at hmutex
    refine hi.stay rfl rfl rfl (by rw [State.goto, State.setTask, hinst]) rfl ?_ trivial
      (by simp [hpc, refreshing]) (by simp [hpc, rank])
    show Locks ((r.store.setInst t _).instances 0) _
    rw [hinst]
    refine hi.locks.mutexMoves rfl rfl rfl (hmutex.enter rfl) (fun m' hne => ?_)
      (by rw [hpc]; rfl) (fun m' h => ?_) (by simp)
    · rw [hpc]
      simp [mutex, mutexOf, Ne.symm hne]
    · cases h
      exact hi.locks.one t m (.inr hpc)

/-- The call returns and releases the session's mutex. -/
theorem Inv.drop (hi : Inv old refreshToken r stage) {m : Nat} {token : StoredToken}
    (hmutex : mutex (r.store.tasks t).pc = some m) (hin : (r.store.tasks t).pc.inMutation = false)
    (hstage : stage = .stored token) (hrank : 0 < rank (r.store.tasks t).pc) :
    Inv old refreshToken
      ⟨(r.store.dropMutex t m).goto t (.done (some token)), r.answers, ran r.taken t⟩ stage := by
  have hinst := hi.setInst_eq (t := t)
    { r.store.inst t with mutexes := Function.update (r.store.inst t).mutexes m none }
  refine hi.stay rfl rfl rfl ?_ rfl ?_ ⟨token, hstage, rfl⟩ ?_ hrank
  · show ((r.store.setInst t _).instances 0).token = _
    rw [hinst, hi.inst_eq]
  · show Locks ((r.store.setInst t _).instances 0) _
    rw [hinst, hi.inst_eq]
    refine hi.locks.mutexMoves rfl rfl rfl ((hi.locks.mutex m).leave hmutex (by simp [mutex]))
      (fun m' hne => ?_) hin.symm (by simp [mutex]) (by simp)
    rw [hmutex]
    simp [mutex, Ne.symm hne]
  · -- Nobody refreshes any more once the new token is in memory.
    intro h
    have htask := hi.tasks t
    rw [hstage] at htask
    cases hpc : (r.store.tasks t).pc with
    | awaitReply r' submitted seen =>
      rw [hpc] at htask
      cases htask.1
    | storeLock w token' =>
      rw [hpc] at htask h
      cases w <;> cases htask
    | storeMemory w token' p =>
      rw [hpc] at htask h
      cases w <;> cases htask
    | _ =>
      rw [hpc] at h
      cases h

/-- Who looks again before the new token is in memory is the first to look. -/
theorem Inv.fresh_of_recheck (hi : Inv old refreshToken r stage) {m : Nat}
    (hpc : (r.store.tasks t).pc = .rawRead (.recheck m)) (hstage : ∀ new, stage ≠ .stored new) :
    stage = .fresh := by
  have hpending : stage.pending = false := by
    cases hp : stage.pending with
    | false => rfl
    | true =>
      obtain ⟨u, hu⟩ := hi.worker hp
      obtain ⟨m', hm'⟩ := mutex_of_refreshing hu
      have heq := hi.locks.alone (t := t) (m := m) (by rw [hpc]; rfl) hm'
      rw [heq, hpc] at hu
      cases hu
  cases stage with
  | fresh => rfl
  | sent => cases hpending
  | answered token => cases hpending
  | stored token => exact absurd rfl (hstage token)

theorem Inv.recheck (hi : Inv old refreshToken r stage) {m : Nat}
    (hgood : ∀ token ∈ r.answers, token.isExpired r.store.clock.now = false)
    (hpc : (r.store.tasks t).pc = .rawRead (.recheck m))
    (hr : unbackedSection r.store t = some st') :
    Inv old refreshToken ⟨st', r.answers, ran r.taken t⟩ stage := by
  obtain ⟨token, htoken, hcase⟩ := hi.finds hgood
  simp only [unbackedSection, runSection, hpc, hi.inst_eq, htoken, Option.some.injEq] at hr
  subst hr
  rcases hcase with ⟨rfl, hstage⟩ | ⟨hstage, hlive⟩
  · simp only [afterRaw, hi.expired, if_true]
    exact hi.goto (by rw [hpc]; rfl) (by rw [hpc]; rfl) (by simp) (hi.fresh_of_recheck hpc hstage)
      (by simp [hpc, refreshing]) (by simp [hpc, rank])
  · simp only [afterRaw, hlive, Bool.false_eq_true, if_false]
    exact hi.drop (by rw [hpc]; rfl) (by rw [hpc]; rfl) hstage (by simp [hpc, rank])

theorem Inv.tryLock (hi : Inv old refreshToken r stage) {m deadline : Nat}
    (hpc : (r.store.tasks t).pc = .tryLock m deadline)
    (hr : unbackedSection r.store t = some st') :
    Inv old refreshToken ⟨st', r.answers, ran r.taken t⟩ stage := by
  have htask := hi.tasks t
  rw [hpc] at htask
  simp only [unbackedSection, hpc, Option.some.injEq] at hr
  subst hr
  exact hi.stay rfl rfl rfl rfl rfl
    (hi.locks.stay rfl rfl (fun _ h => h) (by rw [hpc]; rfl) (by rw [hpc]; rfl) (by simp)) htask
    (by simp [hpc, refreshing]) (by simp [hpc, rank])

theorem Inv.submit (hi : Inv old refreshToken r stage) (hold : old.refreshToken = some refreshToken)
    {f : Refresh} (hpc : (r.store.tasks t).pc = .rawRead (.submit f))
    (hr : unbackedSection r.store t = some st') :
    Inv old refreshToken ⟨st', r.answers, ran r.taken t⟩ stage := by
  have htask := hi.tasks t
  rw [hpc] at htask
  have htoken := hi.token
  rw [show stage = .fresh from htask] at htoken
  simp only [unbackedSection, runSection, hpc, hi.inst_eq, htoken, Option.some.injEq] at hr
  subst hr
  simp only [afterRaw, Stage.memory, Option.bind_some, hold]
  exact hi.goto (by rw [hpc]; rfl) (by rw [hpc]; rfl) (by simp) ⟨htask, rfl⟩
    (by simp [hpc, refreshing]) (by simp [hpc, rank])

theorem Inv.send (hi : Inv old refreshToken r stage) {f : Refresh} {submitted : String}
    {seen : Marks} (hpc : (r.store.tasks t).pc = .send f submitted seen)
    (hr : unbackedSection r.store t = some st') :
    Inv old refreshToken ⟨st', r.answers, ran r.taken t⟩ .sent := by
  have htask := hi.tasks t
  rw [hpc] at htask
  obtain ⟨rfl, rfl⟩ := htask
  have hsubmitted : r.store.submitted = [] := by simpa [Stage.submitted] using hi.submitted
  simp only [unbackedSection, runSection, hpc, hi.config, if_true, Option.some.injEq] at hr
  subst hr
  refine hi.advance (m := f.mutex) (by rw [hpc]; rfl) (by simp) rfl rfl rfl hi.token ?_ hi.answers
    (hi.locks.stay rfl rfl (fun _ h => h) (by rw [hpc]; rfl) (by rw [hpc]; rfl) (by simp))
    ⟨rfl, rfl⟩ (fun _ => rfl) (by simp [hpc, rank])
  simp [hsubmitted, Stage.submitted]

theorem Inv.reply (hi : Inv old refreshToken r stage) {f : Refresh} {submitted : String}
    {seen : Marks} {response : Option TokenResponse} {token : StoredToken}
    (hpc : (r.store.tasks t).pc = .awaitReply f submitted seen)
    (hnew : response.bind (TokenStore.refreshed r.store.clock submitted) = some token)
    (hr : replySection r.store t response = some st') :
    Inv old refreshToken ⟨st', [token], ran r.taken t⟩ (.answered token) := by
  have htask := hi.tasks t
  rw [hpc] at htask
  obtain ⟨rfl, rfl⟩ := htask
  simp only [replySection, hpc, hnew, Option.some.injEq] at hr
  subst hr
  exact hi.advance (m := f.mutex) (by rw [hpc]; rfl) (by simp) rfl rfl rfl hi.token hi.submitted rfl
    (hi.locks.stay rfl rfl (fun _ h => h) (by rw [hpc]; rfl) (by rw [hpc]; rfl) (by simp))
    rfl (fun _ => rfl) (by simp [hpc, rank])

theorem Inv.storeLock (hi : Inv old refreshToken r stage) {w : Writer} {token : StoredToken}
    (hpc : (r.store.tasks t).pc = .storeLock w token)
    (hr : unbackedSection r.store t = some st') :
    Inv old refreshToken ⟨st', r.answers, ran r.taken t⟩ stage := by
  have htask := hi.tasks t
  rw [hpc] at htask
  cases w with
  | caller => exact htask.elim
  | refresh f seen =>
    simp only [unbackedSection, runSection, hpc, hi.inst_eq] at hr
    cases hfree : (r.store.instances 0).mutationLock with
    | some u => simp [hfree] at hr
    | none =>
      simp only [hfree, Option.some.injEq] at hr
      subst hr
      have hinst := hi.setInst_eq (t := t) { r.store.instances 0 with mutationLock := some t }
      have hmutation := hi.locks.mutation
      rw [hfree] at hmutation
      refine hi.stay rfl rfl rfl (by rw [State.goto, State.setTask, hinst]) rfl ?_ htask
        (fun _ => rfl) (by simp [hpc, rank])
      show Locks ((r.store.setInst t _).instances 0) _
      rw [hinst]
      exact hi.locks.mutationMoves rfl rfl (hmutation.enter rfl) (by rw [hpc]; rfl) (by simp)

theorem Inv.storeMemory (hi : Inv old refreshToken r stage) {w : Writer} {token : StoredToken}
    {p : PersistedToken} (hpc : (r.store.tasks t).pc = .storeMemory w token p)
    (hr : unbackedSection r.store t = some st') :
    Inv old refreshToken ⟨st', r.answers, ran r.taken t⟩ (.stored token) := by
  have htask := hi.tasks t
  rw [hpc] at htask
  cases w with
  | caller => exact htask.elim
  | refresh f seen =>
    cases htask
    have hinst := hi.setInst_eq (t := t) { r.store.inst t with token := some token }
    simp only [unbackedSection, runSection, hpc, Option.some.injEq] at hr
    subst hr
    refine hi.advance (m := f.mutex) (by rw [hpc]; rfl) (by simp) rfl rfl rfl ?_ hi.submitted
      hi.answers ?_ ⟨token, rfl⟩ (fun h => by cases h) (by simp [hpc, rank])
    · show ((r.store.setInst t _).instances 0).token = _
      rw [hinst]
      rfl
    · show Locks ((r.store.setInst t _).instances 0) _
      rw [hinst, hi.inst_eq]
      exact hi.locks.stay rfl rfl (fun _ h => h) (by rw [hpc]; rfl) (by rw [hpc]; rfl) (by simp)

theorem Inv.storeBackend (hi : Inv old refreshToken r stage) {w : Writer} {p : PersistedToken}
    (hpc : (r.store.tasks t).pc = .storeBackend w p)
    (hr : unbackedSection r.store t = some st') :
    Inv old refreshToken ⟨st', r.answers, ran r.taken t⟩ stage := by
  have htask := hi.tasks t
  rw [hpc] at htask
  cases w with
  | caller => exact htask.elim
  | refresh f seen =>
    have hinst := hi.setInst_eq (t := t) { r.store.inst t with mutationLock := none }
    simp only [unbackedSection, runSection, hpc, Option.some.injEq] at hr
    subst hr
    refine hi.stay rfl rfl rfl ?_ rfl ?_ htask (by simp [hpc, refreshing]) (by simp [hpc, rank])
    · show ((r.store.setInst t _).instances 0).token = _
      rw [hinst, hi.inst_eq]
    · show Locks ((r.store.setInst t _).instances 0) _
      rw [hinst, hi.inst_eq]
      exact hi.locks.mutationMoves rfl rfl
        (hi.locks.mutation.leave (show (r.store.tasks t).pc.inMutation = true by rw [hpc]; rfl)
          (by simp [Pc.inMutation])) (by rw [hpc]; rfl) (by simp)

theorem Inv.stored (hi : Inv old refreshToken r stage) {f : Refresh}
    (hpc : (r.store.tasks t).pc = .rawRead (.stored f))
    (hr : unbackedSection r.store t = some st') :
    Inv old refreshToken ⟨st', r.answers, ran r.taken t⟩ stage := by
  have htask := hi.tasks t
  rw [hpc] at htask
  obtain ⟨token, hstage⟩ := htask
  have htoken := hi.token
  rw [hstage] at htoken
  simp only [unbackedSection, runSection, hpc, hi.inst_eq, htoken, Option.some.injEq] at hr
  subst hr
  exact hi.goto (by rw [hpc]; rfl) (by rw [hpc]; rfl) (by simp) ⟨token, hstage, rfl⟩
    (by simp [hpc, refreshing]) (by simp [hpc, rank])

theorem Inv.releaseDist (hi : Inv old refreshToken r stage) {f : Refresh}
    {result : Option StoredToken} (hpc : (r.store.tasks t).pc = .releaseDist f result)
    (hr : unbackedSection r.store t = some st') :
    Inv old refreshToken ⟨st', r.answers, ran r.taken t⟩ stage := by
  have htask := hi.tasks t
  rw [hpc] at htask
  obtain ⟨token, hstage, rfl⟩ := htask
  simp only [unbackedSection, runSection, hpc, reduceCtorEq, decide_false, Bool.and_false,
    Bool.false_eq_true, if_false, Option.some.injEq] at hr
  subst hr
  exact hi.drop (by rw [hpc]; rfl) (by rw [hpc]; rfl) hstage (by simp [hpc, rank])

/-- A section of any call. -/
theorem Inv.run (hi : Inv old refreshToken r stage) (hold : old.refreshToken = some refreshToken)
    (hgood : ∀ token ∈ r.answers, token.isExpired r.store.clock.now = false)
    (hr : unbackedSection r.store t = some st') :
    ∃ stage', Inv old refreshToken ⟨st', r.answers, ran r.taken t⟩ stage' := by
  have htask := hi.tasks t
  cases hpc : (r.store.tasks t).pc with
  | rawRead want =>
    cases want with
    | peek =>
      rw [hpc] at htask
      exact htask.elim
    | first => exact ⟨stage, hi.first hold hgood hpc hr⟩
    | recheck m => exact ⟨stage, hi.recheck hgood hpc hr⟩
    | submit f => exact ⟨stage, hi.submit hold hpc hr⟩
    | stored f => exact ⟨stage, hi.stored hpc hr⟩
  | getRefreshLock => exact ⟨stage, hi.getRefreshLock hpc hr⟩
  | awaitRefreshLock m => exact ⟨stage, hi.awaitRefreshLock hpc hr⟩
  | tryLock m deadline => exact ⟨stage, hi.tryLock hpc hr⟩
  | send f submitted seen => exact ⟨.sent, hi.send hpc hr⟩
  | storeLock w token => exact ⟨stage, hi.storeLock hpc hr⟩
  | storeMemory w token p => exact ⟨.stored token, hi.storeMemory hpc hr⟩
  | storeBackend w p => exact ⟨stage, hi.storeBackend hpc hr⟩
  | releaseDist f result => exact ⟨stage, hi.releaseDist hpc hr⟩
  | idle => simp [unbackedSection, runSection, hpc] at hr
  | awaitReply f submitted seen => simp [unbackedSection, runSection, hpc] at hr
  | done result => simp [unbackedSection, runSection, hpc] at hr
  | _ =>
    rw [hpc] at htask
    exact htask.elim

/-- `get_token` is called. -/
theorem Inv.call (hi : Inv old refreshToken r stage) (hpc : (r.store.tasks t).pc = .idle) :
    Inv old refreshToken
      ⟨r.store.setTask t { inst := 0, pc := .rawRead .first }, r.answers, r.taken⟩ stage := by
  have hcalled : r.store.setTask t { inst := 0, pc := .rawRead .first } =
      r.store.goto t (.rawRead .first) := by
    rw [State.goto, ← hi.single t]
  rw [hcalled]
  refine ⟨?_, hi.config, hi.expired, hi.token, hi.submitted, hi.answers, ?_, ?_, ?_, ?_⟩
  · exact (forall_update_iff (P := fun _ (task : Task) => task.inst = 0)).mpr
      ⟨hi.single t, fun u _ => hi.single u⟩
  · exact hi.locks.stay rfl rfl (fun _ h => h) (by rw [hpc]; rfl) (by rw [hpc]; rfl) (by simp)
  · exact (forall_update_iff (P := fun _ (task : Task) => TaskOk refreshToken stage task.pc)).mpr
      ⟨trivial, fun u _ => hi.tasks u⟩
  · intro hpending
    obtain ⟨u, hu⟩ := hi.worker hpending
    have hut : u ≠ t := by
      rintro rfl
      rw [hpc] at hu
      cases hu
    refine ⟨u, ?_⟩
    show refreshing (Function.update r.store.tasks t _ u).pc = true
    rw [Function.update_of_ne hut]
    exact hu
  · refine (forall_update_iff (P := fun u (task : Task) => r.taken u + rank task.pc ≤ 13)).mpr
      ⟨?_, fun u _ => hi.steps u⟩
    have hsteps := hi.steps t
    rw [hpc] at hsteps
    exact hsteps

/-! ## Runs -/

theorem by_run (t : Nat) (answer : Answer) (taken : Nat → Nat) :
    (fun u => if (Move.step (.run t answer)).by u then taken u + 1 else taken u) = ran taken t := by
  funext u
  simp [Move.by, ran]

theorem by_reply (t : Nat) (response : Option TokenResponse) (taken : Nat → Nat) :
    (fun u => if (Move.step (.reply t response)).by u then taken u + 1 else taken u) =
      ran taken t := by
  funext u
  simp [Move.by, ran]

/-- Time passes. -/
theorem Inv.tick (hi : Inv old refreshToken r stage) (d unix : Nat) :
    Inv old refreshToken
      ⟨{ r.store with clock := ⟨r.store.clock.now + d, unix⟩ }, r.answers, r.taken⟩ stage := by
  refine ⟨hi.single, hi.config, ?_, hi.token, hi.submitted, hi.answers, hi.locks, hi.tasks,
    hi.worker, hi.steps⟩
  exact StoredToken.isExpired_mono (Nat.le_add_right ..) hi.expired

/-- Before the answer to the one request there is none. -/
theorem Inv.answers_of_awaiting (hi : Inv old refreshToken r stage) {f : Refresh}
    {submitted : String} {seen : Marks} (hpc : (r.store.tasks t).pc = .awaitReply f submitted seen) :
    r.answers = [] := by
  have htask := hi.tasks t
  rw [hpc] at htask
  rw [hi.answers, htask.1]
  rfl

/-- Answers are not taken back, and time does not run back. -/
theorem Renewal.step_mono {r' : Renewal} {m : Move} (h : r.step m = some r') :
    (∀ token ∈ r.answers, token ∈ r'.answers) ∧ r.store.clock.now ≤ r'.store.clock.now := by
  obtain ⟨st, hst, rfl⟩ := Option.map_eq_some_iff.mp h
  refine ⟨fun token ht => List.mem_append_right _ ht, ?_⟩
  cases m with
  | refresh t inst =>
    obtain ⟨-, rfl⟩ := callRefresh_cases hst
    exact Nat.le_refl _
  | step l =>
    cases l with
    | tick d unix =>
      cases hst
      exact Nat.le_add_right ..
    | call t inst op =>
      obtain ⟨-, rfl⟩ := step_call_cases hst
      exact Nat.le_refl _
    | run t answer => exact Nat.le_of_eq (congrArg (·.now) (move_run_local hst).clock.symm)
    | reply t response => exact Nat.le_of_eq (congrArg (·.now) (replySection_local hst).clock.symm)
    | lapse =>
      simp only [move, TokenProtocol.step] at hst
      split at hst
      · split at hst
        · cases hst
          exact Nat.le_refl _
        · cases hst
      · cases hst

/-- Tokens that are unexpired now were so before. -/
theorem unexpired_before {r' : Renewal} {m : Move} (h : r.step m = some r')
    (hgood : ∀ token ∈ r'.answers, token.isExpired r'.store.clock.now = false) :
    ∀ token ∈ r.answers, token.isExpired r.store.clock.now = false := by
  obtain ⟨hkept, hnow⟩ := Renewal.step_mono h
  intro token ht
  cases he : token.isExpired r.store.clock.now with
  | false => rfl
  | true =>
    have hlater := StoredToken.isExpired_mono hnow he
    rw [hgood token (hkept token ht)] at hlater
    cases hlater

theorem Inv.step {r' : Renewal} {m : Move} (hi : Inv old refreshToken r stage)
    (hold : old.refreshToken = some refreshToken)
    (hgood : ∀ token ∈ r.answers, token.isExpired r.store.clock.now = false)
    (hg : onlyGets r m = true) (h : r.step m = some r') :
    ∃ stage', Inv old refreshToken r' stage' := by
  obtain ⟨st, hst, rfl⟩ := Option.map_eq_some_iff.mp h
  cases m with
  | refresh t inst => cases hg
  | step l =>
    cases l with
    | tick d unix =>
      cases hst
      exact ⟨stage, hi.tick d unix⟩
    | call t inst op =>
      obtain ⟨hpc, rfl⟩ := step_call_cases hst
      cases op with
      | get =>
        obtain rfl : inst = 0 := of_decide_eq_true hg
        exact ⟨stage, hi.call hpc⟩
      | _ => cases hg
    | run t answer =>
      rw [by_run]
      exact hi.run hold hgood hst
    | reply t response =>
      rw [by_reply]
      obtain ⟨f, submitted, seen, hpc, -⟩ := reply_cases hst
      obtain ⟨token, hnew⟩ := Option.isSome_iff_exists.mp hg
      rw [hnew, hi.answers_of_awaiting hpc]
      rw [Renewal.answer, hpc] at hnew
      exact ⟨.answered token, hi.reply hpc hnew hst⟩
    | lapse =>
      simp only [move, TokenProtocol.step] at hst
      split at hst
      · split at hst
        · cases hst
          exact ⟨stage, ⟨hi.single, hi.config, hi.expired, hi.token, hi.submitted, hi.answers,
            hi.locks, hi.tasks, hi.worker, hi.steps⟩⟩
        · cases hst
      · cases hst

theorem inv_holding {clock : Clock} (refreshLock : Option Nat) (nextMutex : Nat)
    (hold : old.isExpired clock.now = true) :
    Inv old refreshToken (holding clock old refreshLock nextMutex) .fresh :=
  ⟨fun _ => rfl, rfl, hold, rfl, rfl, rfl,
    ⟨fun _ => .of_free (by simp [holding, init, idleTask, mutex]),
      fun _ _ h => by simp [holding, init, idleTask, mutex] at h,
      .of_free (by simp [holding, init, idleTask, Pc.inMutation])⟩,
    fun _ => trivial, fun h => (by cases h), fun _ => Nat.le_refl 13⟩

/-! ## Nobody waits for ever -/

theorem unfinished_of_mutex {m : Nat} (h : mutex pc = some m) : pc.unfinished = true := by
  cases pc <;> first | rfl | cases h

theorem unfinished_of_mutation (h : pc.inMutation = true) : pc.unfinished = true := by
  cases pc <;> first | rfl | cases h

/-- A call that waits for no lock can go on. -/
theorem Inv.ready (hi : Inv old refreshToken r stage)
    (hunfinished : (r.store.tasks t).pc.unfinished = true)
    (hmutex : ∀ m, (r.store.tasks t).pc ≠ .awaitRefreshLock m)
    (hmutation : ∀ w token, (r.store.tasks t).pc ≠ .storeLock w token) : Ready r.store t := by
  have htask := hi.tasks t
  cases hpc : (r.store.tasks t).pc with
  | awaitRefreshLock m => exact absurd hpc (hmutex m)
  | storeLock w token => exact absurd hpc (hmutation w token)
  | awaitReply f submitted seen =>
    refine .inr fun response => ?_
    simp only [replySection, hpc]
    split <;> rfl
  | rawRead want =>
    left
    simp only [unbackedSection, runSection, hpc]
    split <;> rfl
  | getRefreshLock =>
    left
    simp only [unbackedSection, runSection, hpc]
    split <;> rfl
  | tryLock m deadline =>
    left
    simp only [unbackedSection, hpc]
    rfl
  | send f submitted seen =>
    left
    simp only [unbackedSection, runSection, hpc]
    split <;> rfl
  | storeMemory w token p =>
    left
    simp only [unbackedSection, runSection, hpc]
    rfl
  | storeBackend _ _ | releaseDist _ _ =>
    left
    simp only [unbackedSection, runSection, hpc]
    rfl
  | idle =>
    rw [hpc] at hunfinished
    cases hunfinished
  | done result =>
    rw [hpc] at hunfinished
    cases hunfinished
  | _ =>
    rw [hpc] at htask
    exact htask.elim

/-- A call that does not wait for the session's mutex can go on, or the call that
has the mutation lock can. -/
theorem Inv.goes_on (hi : Inv old refreshToken r stage)
    (hunfinished : (r.store.tasks t).pc.unfinished = true)
    (hmutex : ∀ m, (r.store.tasks t).pc ≠ .awaitRefreshLock m) :
    ∃ u, (r.store.tasks u).pc.unfinished = true ∧ Ready r.store u := by
  by_cases hstore : ∃ w token, (r.store.tasks t).pc = .storeLock w token
  · obtain ⟨w, token, hpc⟩ := hstore
    cases hheld : (r.store.instances 0).mutationLock with
    | none =>
      refine ⟨t, hunfinished, .inl ?_⟩
      simp only [unbackedSection, runSection, hpc, hi.inst_eq, hheld]
      rfl
    | some u =>
      have hin : (r.store.tasks u).pc.inMutation = true := (hi.locks.mutation u).mpr hheld
      refine ⟨u, unfinished_of_mutation hin, hi.ready (unfinished_of_mutation hin) ?_ ?_⟩
      · intro m h
        rw [h] at hin
        cases hin
      · intro w' token' h
        rw [h] at hin
        cases hin
  · exact ⟨t, hunfinished, hi.ready hunfinished hmutex fun w token h => hstore ⟨w, token, h⟩⟩

/-- While a call has not returned, some call can go on. -/
theorem Inv.progress (hi : Inv old refreshToken r stage)
    (hunfinished : (r.store.tasks t).pc.unfinished = true) :
    ∃ u, (r.store.tasks u).pc.unfinished = true ∧ Ready r.store u := by
  by_cases hwait : ∃ m, (r.store.tasks t).pc = .awaitRefreshLock m
  · obtain ⟨m, hpc⟩ := hwait
    cases hheld : (r.store.instances 0).mutexes m with
    | none =>
      refine ⟨t, hunfinished, .inl ?_⟩
      simp only [unbackedSection, runSection, hpc, hi.inst_eq, hheld]
      rfl
    | some u =>
      have hmine : mutex (r.store.tasks u).pc = some m := (hi.locks.mutex m u).mpr hheld
      refine hi.goes_on (unfinished_of_mutex hmine) fun m' h => ?_
      rw [h] at hmine
      cases hmine
  · exact hi.goes_on hunfinished fun m h => hwait ⟨m, h⟩

end Steps

end Once

/-! ## One refresh -/

/-- What a run of `get_token` calls comes to. -/
structure RefreshedOnce (refreshToken : String) (r : Renewal) : Prop where
  /-- Once all calls have returned, one request has been sent and each call has
  the token it was answered with. -/
  once : (∃ t, (r.store.tasks t).pc ≠ .idle) →
    (∀ t, (r.store.tasks t).pc.unfinished = false) →
    ∃ token, r.answers = [token] ∧ r.store.submitted.map (·.token) = [refreshToken] ∧
      ∀ t, (r.store.tasks t).pc ≠ .idle → (r.store.tasks t).pc = .done (some token)
  /-- A call returns after 13 sections at the most. -/
  bounded : ∀ t, r.taken t ≤ 13
  /-- While a call has not returned, one that has not can go on. -/
  progress : ∀ t, (r.store.tasks t).pc.unfinished = true →
    ∃ u, (r.store.tasks u).pc.unfinished = true ∧ Ready r.store u

namespace Once

/-- What a call has returned is the new token. -/
theorem Inv.outcome {old : StoredToken} {refreshToken : String} {r : Renewal} {stage : Stage}
    (hi : Inv old refreshToken r stage) : RefreshedOnce refreshToken r := by
  refine ⟨?_, fun t => Nat.le_trans (Nat.le_add_right ..) (hi.steps t), fun t => hi.progress⟩
  rintro ⟨t, ht⟩ hfinished
  have hdone : ∀ u, (r.store.tasks u).pc ≠ .idle →
      ∃ token, stage = .stored token ∧ (r.store.tasks u).pc = .done (some token) := by
    intro u hu
    have htask := hi.tasks u
    have hend := hfinished u
    cases hpc : (r.store.tasks u).pc with
    | idle => exact absurd hpc hu
    | done result =>
      rw [hpc] at htask
      obtain ⟨token, hstage, rfl⟩ := htask
      exact ⟨token, hstage, rfl⟩
    | _ =>
      rw [hpc] at hend
      cases hend
  obtain ⟨token, hstage, -⟩ := hdone t ht
  refine ⟨token, ?_, ?_, fun u hu => ?_⟩
  · rw [hi.answers, hstage]
    rfl
  · rw [hi.submitted, hstage]
    rfl
  · obtain ⟨token', hstage', hpc⟩ := hdone u hu
    rw [hstage] at hstage'
    cases hstage'
    exact hpc

end Once

/-- **One refresh per expiry.** On an instance without a backend that holds an
expired access token and a refresh token, in every run of `get_token` calls in
which the authorization server answers with tokens that are unexpired at the end,
one request is sent and every call returns the new token. The calls do return:
each runs 13 sections at the most, and while one has not returned, some call can
go on. -/
theorem refreshed_once (clock : Clock) (old : StoredToken) (refreshToken : String)
    (hold : old.refreshToken = some refreshToken) (hexpired : old.isExpired clock.now = true)
    (refreshLock : Option Nat) (nextMutex : Nat) (r : Renewal)
    (hr : renewals.Reach (fun r m => onlyGets r m = true)
      (holding clock old refreshLock nextMutex) r)
    (hgood : ∀ token ∈ r.answers, token.isExpired r.store.clock.now = false) :
    RefreshedOnce refreshToken r := by
  have hinv := hr.invariant
    (I := fun r => (∀ token ∈ r.answers, token.isExpired r.store.clock.now = false) →
      ∃ stage, Once.Inv old refreshToken r stage)
    (fun _ => ⟨.fresh, Once.inv_holding refreshLock nextMutex hexpired⟩)
    fun s m s' hi hg hs hgood => by
      have hbefore := Once.unexpired_before hs hgood
      obtain ⟨stage, hi⟩ := hi hbefore
      exact hi.step hold hbefore hg hs
  obtain ⟨stage, hi⟩ := hinv hgood
  exact hi.outcome

namespace Once

def sectionsOf (t n : Nat) : List Move := List.replicate n (.step (.run t .ok))

/-- Two calls find the token expired; the second waits until the first has
refreshed it. -/
def twoCalls : List Move :=
  .step (.call 0 0 .get) :: .step (.call 1 0 .get) :: sectionsOf 0 3 ++ sectionsOf 1 2 ++
    sectionsOf 0 4 ++ .step (.reply 0 (some ⟨some "a2", some "r2", some 60⟩)) ::
    sectionsOf 0 5 ++ sectionsOf 1 2

end Once

open Once in
theorem refreshed_once_for_two :
    ∃ r : Renewal, RefreshedOnce "r1" r ∧
      (r.store.tasks 0).pc = .done (some ⟨"a2", some "r2", some (Duration.fromSecs 60)⟩) ∧
      (r.store.tasks 1).pc = .done (some ⟨"a2", some "r2", some (Duration.fromSecs 60)⟩) := by
  obtain ⟨r, hr, hp⟩ := System.exists_reach_of_run (S := renewals)
    (G := fun r m => onlyGets r m = true)
    (s := holding ⟨0, 0⟩ ⟨"a1", some "r1", some 0⟩ none 0) (w := twoCalls)
    (p := fun r => (r.answers.all fun token => !token.isExpired r.store.clock.now) &&
      decide ((r.store.tasks 0).pc = .done (some ⟨"a2", some "r2", some (Duration.fromSecs 60)⟩) ∧
        (r.store.tasks 1).pc = .done (some ⟨"a2", some "r2", some (Duration.fromSecs 60)⟩)))
    (by decide +kernel)
  obtain ⟨hgood, hdone⟩ := Bool.and_eq_true_iff.mp hp
  refine ⟨r, refreshed_once ⟨0, 0⟩ ⟨"a1", some "r1", some 0⟩ "r1" rfl (by decide) none 0 r hr ?_,
    of_decide_eq_true hdone⟩
  simpa using hgood

end McpFramework.TokenProtocol
