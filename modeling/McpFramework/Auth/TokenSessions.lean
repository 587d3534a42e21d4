import McpFramework.Auth.TokenCoherence
import McpFramework.Lib.HashMap

/-!
# Auth — TokenSessions

The token store with all its sessions (`auth/store.rs`). An operation on one
session runs the sections of the token protocol on what there is of that session
(`view`), and what they make of it goes back (`put`); `purge_expired` removes
the expired tokens of all sessions at once and deletes their records one by one.

Sessions meet in the mutation lock of an instance and nowhere else, so a section
on one session leaves every other coherent, and coherence is a matter of each
session by itself.
-/

namespace McpFramework.TokenSessions

open Lib TokenProtocol.Coherence
open TokenProtocol (Answer Local Marks Server Submission)

/-! ## Data -/

/-- A session's mutexes are known by their numbers. -/
structure Instance where
  tokens : HashMap String StoredToken
  mutationLock : Option Nat
  refreshLocks : HashMap String Nat
  mutexes : String → Nat → Option Nat
  nextMutex : String → Nat

/-- What there is of a session outside the instances. -/
structure Session where
  record : Option PersistedToken
  lock : Option (LockEntry Nat)
  server : Server
  submitted : List Submission
  marks : Marks
  removedLast : Bool
  overwrote : Bool

inductive Op where
  | get (sessionId : String)
  | peek (sessionId : String)
  | store (sessionId : String) (token : StoredToken)
  | remove (sessionId : String)
  | purge

inductive Pc where
  | idle
  | on (sessionId : String) (pc : TokenProtocol.Pc)
  | purgeLock
  | purgeScan
  | purgeMemory (expiredKeys : List String)
  | purgeBackend (expiredKeys : List String)
  | purged
deriving DecidableEq

structure Task where
  inst : Nat
  pc : Pc

structure State where
  clock : Clock
  refreshConfig : Bool
  instances : Nat → Instance
  sessions : String → Session
  tasks : Nat → Task

inductive Label where
  | tick (d unix : Nat)
  | call (t inst : Nat) (op : Op)
  | run (t : Nat) (answer : Answer)
  | reply (t : Nat) (response : Option TokenResponse)
  | lapse (sessionId : String)

/-- Instances that start with nothing in memory over persisted records. -/
def init (clock : Clock) (refreshConfig : Bool) (records : String → Option PersistedToken) :
    State :=
  { clock := clock, refreshConfig := refreshConfig
    instances := fun _ =>
      { tokens := HashMap.empty, mutationLock := none, refreshLocks := HashMap.empty
        mutexes := fun _ _ => none, nextMutex := fun _ => 0 }
    sessions := fun sessionId =>
      let current := (records sessionId).bind (·.refreshToken)
      { record := records sessionId, lock := none
        server := { current := current, issued := current.toList }
        submitted := [], marks := ⟨0, 0⟩, removedLast := false, overwrote := false }
    tasks := fun _ => { inst := 0, pc := .idle } }

/-! ## One session of all -/

def Instance.view (inst : Instance) (sessionId : String) : TokenProtocol.Instance :=
  { token := inst.tokens.get? sessionId
    mutationLock := inst.mutationLock
    refreshLock := inst.refreshLocks.get? sessionId
    mutexes := inst.mutexes sessionId
    nextMutex := inst.nextMutex sessionId }

/-- An operation on another session does nothing here. -/
def Pc.view (pc : Pc) (sessionId : String) : TokenProtocol.Pc :=
  match pc with
  | .idle => .idle
  | .on s pc => if s = sessionId then pc else .idle
  | .purgeLock => .purgeLock
  | .purgeScan => .purgeScan
  | .purgeMemory expiredKeys => if sessionId ∈ expiredKeys then .purgeMemory else .done none
  | .purgeBackend expiredKeys => if sessionId ∈ expiredKeys then .purgeBackend else .done none
  | .purged => .done none

def Task.view (task : Task) (sessionId : String) : TokenProtocol.Task :=
  { inst := task.inst, pc := task.pc.view sessionId }

namespace State

def view (st : State) (sessionId : String) : TokenProtocol.State :=
  let session := st.sessions sessionId
  { clock := st.clock
    refreshConfig := st.refreshConfig
    record := session.record
    lock := session.lock
    instances := fun i => (st.instances i).view sessionId
    tasks := fun t => (st.tasks t).view sessionId
    server := session.server
    submitted := session.submitted
    marks := session.marks
    removedLast := session.removedLast
    overwrote := session.overwrote }

end State

def Instance.put (inst : Instance) (sessionId : String) (new : TokenProtocol.Instance) :
    Instance :=
  { tokens := inst.tokens.set sessionId new.token
    mutationLock := new.mutationLock
    refreshLocks := inst.refreshLocks.set sessionId new.refreshLock
    mutexes := Function.update inst.mutexes sessionId new.mutexes
    nextMutex := Function.update inst.nextMutex sessionId new.nextMutex }

namespace State

def setTask (st : State) (t : Nat) (task : Task) : State :=
  { st with tasks := Function.update st.tasks t task }

def goto (st : State) (t : Nat) (pc : Pc) : State :=
  st.setTask t { st.tasks t with pc := pc }

def inst (st : State) (t : Nat) : Instance := st.instances (st.tasks t).inst

def setInst (st : State) (t : Nat) (inst : Instance) : State :=
  { st with instances := Function.update st.instances (st.tasks t).inst inst }

/-- What task `t` has made of a session. -/
def put (st : State) (sessionId : String) (t : Nat) (new : TokenProtocol.State) : State :=
  let inst := (st.inst t).put sessionId (new.instances (st.tasks t).inst)
  { (st.setInst t inst).goto t (.on sessionId (new.tasks t).pc) with
    sessions := Function.update st.sessions sessionId
      { record := new.record
        lock := new.lock
        server := new.server
        submitted := new.submitted
        marks := new.marks
        removedLast := new.removedLast
        overwrote := new.overwrote } }

/-- The backend deletes a session's record. -/
def deleteRecord (st : State) (sessionId : String) : State :=
  { st with
    sessions := Function.update st.sessions sessionId
      { st.sessions sessionId with record := none } }

/-- The guard of the mutation lock is dropped. -/
def dropMutation (st : State) (t : Nat) : State :=
  st.setInst t { st.inst t with mutationLock := none }

end State

/-! ## The sections -/

section Sections

def runSection (st : State) (t : Nat) (answer : Answer) : Option State :=
  let inst := st.inst t
  match (st.tasks t).pc with
  | .idle => none
  | .on sessionId _ =>
    (TokenProtocol.runSection (st.view sessionId) t answer).map (st.put sessionId t)
  | .purgeLock =>
    match inst.mutationLock with
    | none => some ((st.setInst t { inst with mutationLock := some t }).goto t .purgeScan)
    | some _ => none
  | .purgeScan =>
    let expiredKeys := TokenStore.expiredKeys inst.tokens st.clock.now
    if expiredKeys.isEmpty then some ((st.dropMutation t).goto t .purged)
    else some (st.goto t (.purgeMemory expiredKeys))
  | .purgeMemory expiredKeys =>
    some ((st.setInst t { inst with tokens := inst.tokens.removeAll expiredKeys
                                    refreshLocks := inst.refreshLocks.removeAll expiredKeys }).goto
      t (.purgeBackend expiredKeys))
  | .purgeBackend [] => some ((st.dropMutation t).goto t .purged)
  | .purgeBackend (key :: expiredKeys) =>
    let st' := st.goto t (.purgeBackend expiredKeys)
    match answer with
    | .ok => some (st'.deleteRecord key)
    | .err => some st'
  | .purged => none

def replySection (st : State) (t : Nat) (response : Option TokenResponse) : Option State :=
  match (st.tasks t).pc with
  | .on sessionId _ =>
    (TokenProtocol.replySection (st.view sessionId) t response).map (st.put sessionId t)
  | _ => none

def Op.start : Op → Pc
  | .get sessionId => .on sessionId TokenProtocol.Op.get.start
  | .peek sessionId => .on sessionId TokenProtocol.Op.peek.start
  | .store sessionId token => .on sessionId (TokenProtocol.Op.store token).start
  | .remove sessionId => .on sessionId TokenProtocol.Op.remove.start
  | .purge => .purgeLock

def step (st : State) : Label → Option State
  | .tick d unix => some { st with clock := ⟨st.clock.now + d, unix⟩ }
  | .call t inst op =>
    match (st.tasks t).pc with
    | .idle => some (st.setTask t { inst := inst, pc := op.start })
    | _ => none
  | .run t answer => runSection st t answer
  | .reply t response => replySection st t response
  | .lapse sessionId =>
    match (st.sessions sessionId).record with
    | some p => if p.refreshToken.isNone then some (st.deleteRecord sessionId) else none
    | none => none

def system : System State Label := ⟨step⟩

end Sections

/-! ## What a section is to each session -/

section Views

variable {st : State} {t : Nat} {s s' : String} {new : TokenProtocol.State}

theorem view_setTask (task : Task) :
    (st.setTask t task).view s = (st.view s).setTask t (task.view s) := by
  have htasks : ((st.setTask t task).view s).tasks =
      Function.update (st.view s).tasks t (task.view s) := by
    funext u
    by_cases hu : u = t
    · subst hu
      simp [State.view, State.setTask]
    · simp [State.view, State.setTask, hu]
  simp only [TokenProtocol.State.setTask, ← htasks]
  rfl

theorem view_goto (pc : Pc) : (st.goto t pc).view s = (st.view s).goto t (pc.view s) :=
  view_setTask _

theorem view_setInst (inst : Instance) :
    (st.setInst t inst).view s = (st.view s).setInst t (inst.view s) := by
  have hinsts : ((st.setInst t inst).view s).instances =
      Function.update (st.view s).instances (st.tasks t).inst (inst.view s) := by
    funext i
    by_cases hi : i = (st.tasks t).inst
    · subst hi
      simp [State.view, State.setInst]
    · simp [State.view, State.setInst, hi]
  simp only [TokenProtocol.State.setInst]
  rw [show ((st.view s).tasks t).inst = (st.tasks t).inst from rfl, ← hinsts]
  rfl

theorem view_deleteRecord_self :
    (st.deleteRecord s).view s = { st.view s with record := none } := by
  simp [State.view, State.deleteRecord]

theorem view_deleteRecord_of_ne (hne : s' ≠ s) : (st.deleteRecord s).view s' = st.view s' := by
  simp [State.view, State.deleteRecord, hne]

theorem Instance.view_put_self (inst : Instance) (new : TokenProtocol.Instance) :
    (inst.put s new).view s = new := by
  simp [Instance.view, Instance.put, HashMap.get?_set]

theorem Instance.view_put_of_ne (inst : Instance) (new : TokenProtocol.Instance) (hne : s' ≠ s) :
    (inst.put s new).view s' = { inst.view s' with mutationLock := new.mutationLock } := by
  simp [Instance.view, Instance.put, HashMap.get?_set, hne]

/-- A section's own session has what the section made of it. -/
theorem view_put_self (h : Local (st.view s) new t) : (st.put s t new).view s = new := by
  have hinsts : ((st.put s t new).view s).instances = new.instances := by
    funext i
    by_cases hi : i = (st.tasks t).inst
    · subst hi
      simp [State.view, State.put, State.goto, State.setTask, State.setInst,
        Instance.view_put_self]
    · rw [h.instances i hi]
      simp [State.view, State.put, State.goto, State.setTask, State.setInst, hi]
  have htasks : ((st.put s t new).view s).tasks = new.tasks := by
    funext u
    by_cases hu : u = t
    · subst hu
      have hinst : (st.tasks u).inst = (new.tasks u).inst := h.sameInst.symm
      simp [State.view, State.put, State.goto, State.setTask, State.setInst, Task.view, Pc.view,
        hinst]
    · rw [h.tasks u hu]
      simp [State.view, State.put, State.goto, State.setTask, State.setInst, hu]
  have hclock : (st.put s t new).clock = new.clock := h.clock.symm
  have hconfig : (st.put s t new).refreshConfig = new.refreshConfig := h.refreshConfig.symm
  have hsession : (st.put s t new).sessions s =
      { record := new.record, lock := new.lock, server := new.server
        submitted := new.submitted, marks := new.marks, removedLast := new.removedLast
        overwrote := new.overwrote } := by
    simp [State.put]
  calc (st.put s t new).view s
      = { (st.put s t new).view s with
          instances := new.instances, tasks := new.tasks } := by rw [← hinsts, ← htasks]
    _ = new := by simp [State.view, hclock, hconfig, hsession]

end Views

/-! ## Tasks by themselves -/

def Label.task : Label → Option Nat
  | .call t _ _ => some t
  | .run t _ => some t
  | .reply t _ => some t
  | _ => none

section Tasks

variable {st st' : State} {u : Nat}

theorem runSection_tasks {t : Nat} {answer : Answer} (h : runSection st t answer = some st')
    (hu : u ≠ t) : st'.tasks u = st.tasks u := by
  have hgoto : ∀ pc, (st.goto t pc).tasks u = st.tasks u := fun pc => by
    simp [State.goto, State.setTask, hu]
  unfold runSection at h
  split at h
  · cases h
  · obtain ⟨new, -, rfl⟩ := Option.map_eq_some_iff.mp h
    exact hgoto _
  · simp only at h
    split at h <;> cases h
    exact hgoto _
  · simp only at h
    split at h <;> cases h <;> exact hgoto _
  · cases h
    exact hgoto _
  · cases h
    exact hgoto _
  · simp only at h
    split at h <;> cases h <;> exact hgoto _
  · cases h

/-- A step moves the task its label names. -/
theorem step_tasks {l : Label} (h : step st l = some st') (hu : l.task ≠ some u) :
    st'.tasks u = st.tasks u := by
  cases l with
  | tick d unix =>
    cases h
    rfl
  | call t inst op =>
    have hne : u ≠ t := fun heq => hu (by rw [heq]; rfl)
    simp only [step] at h
    split at h <;> cases h
    simp [State.setTask, hne]
  | run t answer => exact runSection_tasks h fun heq => hu (by rw [heq]; rfl)
  | reply t response =>
    have hne : u ≠ t := fun heq => hu (by rw [heq]; rfl)
    simp only [step, replySection] at h
    split at h
    · obtain ⟨new, -, rfl⟩ := Option.map_eq_some_iff.mp h
      simp [State.put, State.goto, State.setTask, State.setInst, hne]
    · cases h
  | lapse sessionId =>
    simp only [step] at h
    split at h
    · split at h <;> cases h
      rfl
    · cases h

theorem run_tasks {G : State → Label → Prop} [∀ st l, Decidable (G st l)] {w : List Label}
    (h : system.run G st w = some st') (hu : ∀ l ∈ w, l.task ≠ some u) :
    st'.tasks u = st.tasks u :=
  System.run_invariant (I := fun s => s.tasks u = st.tasks u) h rfl
    fun l hl _ _ hs hstep => (step_tasks hstep (hu l hl)).trans hs

end Tasks

/-! ## One instance -/

/-- One instance, a backend that answers every call, and no record that runs out
there. -/
def oneInstance (_ : State) : Label → Bool
  | .call _ inst _ => decide (inst = 0)
  | .run _ answer => decide (answer = .ok)
  | .lapse _ => false
  | _ => true

/-- Of its session, every section is orderly: it puts a token read from the
backend into memory only while that token has the grant the backend holds or is
about to hold, and the result of a refresh only if no grant was stored or
removed since the refresh read its refresh token. -/
def orderly (st : State) : Label → Bool
  | .run t answer =>
    match (st.tasks t).pc with
    | .on sessionId _ => TokenProtocol.orderly (st.view sessionId) (.run t answer)
    | _ => true
  | _ => true

def Pc.completed : Pc → Bool
  | .idle | .purged | .on _ (.done _) | .on _ .panicked => true
  | _ => false

/-- All operations have completed. -/
def Quiet (st : State) : Prop := ∀ t, (st.tasks t).pc.completed = true

/-- The sections under the mutation lock. -/
def Pc.inMutation : Pc → Bool
  | .on _ pc => pc.inMutation
  | .purgeScan => true
  | .purgeMemory _ => true
  | .purgeBackend _ => true
  | _ => false

/-- Every session is coherent, under one mutation lock. -/
structure Coherent (st : State) : Prop where
  mutation : Guards (st.instances 0).mutationLock
    (fun task : Task => task.pc.inMutation = true) st.tasks
  session : ∀ s, Inv (st.view s)

section Steps

variable {st st' : State} {t : Nat} {pc : Pc}

theorem Coherent.single (h : Coherent st) (t : Nat) : (st.tasks t).inst = 0 :=
  (h.session "").single t

theorem Coherent.inst_eq (h : Coherent st) : st.inst t = st.instances 0 := by
  rw [State.inst, h.single t]

theorem Coherent.instances_setInst (h : Coherent st) (inst : Instance) :
    (st.setInst t inst).instances 0 = inst := by
  show Function.update st.instances (st.tasks t).inst inst 0 = inst
  rw [h.single t, Function.update_self]

/-- Where no operation on a session is, the mutation lock may change hands. -/
theorem Coherent.outside (h : Coherent st) {s : String}
    (hout : ((st.tasks t).view s).pc.inMutation = false)
    (hlock : (st.instances 0).mutationLock = none ∨ (st.tasks t).pc.inMutation = true) (u : Nat) :
    ((st.view s).tasks u).pc.inMutation = false := by
  have hguards := (h.session s).mutation
  have hnot : ¬ ((st.view s).tasks u).pc.inMutation = true := by
    rcases hlock with hfree | hin
    · rw [show ((st.view s).instances 0).mutationLock = none from hfree] at hguards
      exact hguards.outside_of_free u
    · rw [show ((st.view s).instances 0).mutationLock = some t from
        h.mutation.holder_eq hin] at hguards
      refine hguards.outside_of_holder ?_ u
      show ¬ ((st.tasks t).view s).pc.inMutation = true
      simp [hout]
  simpa using hnot

/-- A section on one session is a section on that session and leaves the others
coherent. -/
theorem Coherent.put (h : Coherent st) {s : String} {pc : TokenProtocol.Pc}
    (hpc : (st.tasks t).pc = .on s pc) {new : TokenProtocol.State}
    (hlocal : Local (st.view s) new t) (hnew : Inv new) : Coherent (st.put s t new) := by
  have hinst : (st.view s).inst t = (st.instances 0).view s := by
    rw [← h.inst_eq (t := t)]
    rfl
  have hview : ((st.view s).tasks t).pc = pc := by
    show (st.tasks t).pc.view s = pc
    rw [hpc]
    exact if_pos rfl
  have hput : (st.put s t new).instances 0 =
      (st.instances 0).put s (new.instances 0) := by
    rw [← h.inst_eq (t := t)]
    show Function.update st.instances (st.tasks t).inst _ 0 = _
    rw [h.single t, Function.update_self]
  have hmut := hlocal.mutation
  rw [hinst, show ((st.view s).tasks t).inst = 0 from h.single t] at hmut
  refine ⟨?_, fun s' => ?_⟩
  · rw [hput]
    refine h.mutation.step (t := t) (a := ⟨(st.tasks t).inst, .on s (new.tasks t).pc⟩) ?_
    generalize hold : ((st.instances 0).view s).mutationLock = old at hmut
    generalize hnewLock : (new.instances 0).mutationLock = lock at hmut
    rw [show (st.instances 0).mutationLock = old from hold,
      show ((st.instances 0).put s (new.instances 0)).mutationLock = lock from hnewLock]
    cases hmut with
    | stay hb =>
      refine .stay ?_
      rw [hview] at hb
      rw [hpc]
      exact hb
    | enter => exact .enter
    | leave ha hb =>
      refine .leave ?_ hb
      rw [hview] at ha
      rw [hpc]
      exact ha
  · by_cases hs : s' = s
    · subst hs
      rw [view_put_self hlocal]
      exact hnew
    · -- To the other sessions the task is idle, and only the lock can change.
      have hother : ((st.tasks t).view s').pc = .idle := by
        show (st.tasks t).pc.view s' = .idle
        rw [hpc]
        exact if_neg (Ne.symm hs)
      refine (h.session s').elsewhere (fun u => ?_) ?_ ?_ ?_ ?_ ?_ ?_
      · by_cases hu : u = t
        · subst hu
          have hidle : (st.view s').tasks u = ⟨(st.tasks u).inst, .idle⟩ := by
            rw [← hother]
            rfl
          rw [hidle]
          simp [State.view, State.put, State.goto, State.setTask, State.setInst, Task.view,
            Pc.view, Ne.symm hs]
        · simp [State.view, State.put, State.goto, State.setTask, State.setInst, hu]
      · simp [State.view, State.put, hs]
      · show ((st.put s t new).instances 0 |>.view s').token = _
        rw [hput, Instance.view_put_of_ne _ _ hs]
        rfl
      · simp [State.view, State.put, hs]
      · simp [State.view, State.put, hs]
      · simp [State.view, State.put, hs]
      · show ((st.put s t new).instances 0 |>.view s').mutationLock = _ ∨ _
        rw [hput, Instance.view_put_of_ne _ _ hs]
        rcases hmut.changes with hsame | hfree | hin
        · exact .inl hsame
        · exact .inr (h.outside (by rw [hother]; rfl) (.inl hfree))
        · refine .inr (h.outside (by rw [hother]; rfl) (.inr ?_))
          rw [hview] at hin
          rw [hpc]
          exact hin

/-- `purge_expired` goes on, the mutation lock stays as it is. -/
theorem Coherent.goto (h : Coherent st) (hpc : pc.inMutation = (st.tasks t).pc.inMutation)
    (hviews : ∀ s, Inv ((st.view s).goto t (pc.view s))) : Coherent (st.goto t pc) := by
  refine ⟨h.mutation.move (by simp [hpc]), fun s => ?_⟩
  rw [view_goto]
  exact hviews s

theorem Coherent.purgeLock (h : Coherent st)
    (hfree : (st.inst t).mutationLock = none) :
    Coherent ((st.setInst t { st.inst t with mutationLock := some t }).goto t .purgeScan) := by
  refine ⟨?_, fun s => ?_⟩
  · show Guards ((st.setInst t _).instances 0).mutationLock _ _
    rw [h.instances_setInst]
    have hmut := h.mutation
    rw [← h.inst_eq (t := t), hfree] at hmut
    exact hmut.enter
  · rw [view_goto, view_setInst]
    exact (h.session s).enter hfree (fun _ => rfl) (.of_no_refresh rfl (by simp [Pc.view]))

/-- The keys are those of the sessions whose token is expired and cannot be
refreshed. -/
theorem Coherent.purgeScan (h : Coherent st) (hpc : (st.tasks t).pc = .purgeScan) :
    Coherent (st.goto t
      (.purgeMemory (TokenStore.expiredKeys (st.inst t).tokens st.clock.now))) := by
  refine h.goto (by rw [hpc]; rfl) fun s => ?_
  have hview : ((st.view s).tasks t).pc = .purgeScan := by
    show (st.tasks t).pc.view s = _
    rw [hpc]
    rfl
  have hin : ((st.view s).tasks t).pc.inMutation = true := by rw [hview]; rfl
  have htarget : TokenProtocol.target (st.view s) = (st.view s).record := by
    rw [target_of_inside (h.session s) hin, hview]
    rfl
  rw [Pc.view]
  split
  · refine (h.session s).within .purgeMemory hin rfl rfl rfl rfl (Nat.le_refl _)
      (fun hrem => .inl hrem) ?_ ?_ (.of_no_refresh rfl (by simp)) (h.session s).overwrote
    · intro token htoken
      rw [← htarget]
      exact (h.session s).coherent token htoken
    · intro hrem
      rw [← htarget]
      exact (h.session s).removed hrem
  · exact (h.session s).depart (by rw [hview]; rfl) rfl (.of_no_refresh rfl (by simp))

theorem Coherent.purgeMemory (h : Coherent st) {keys : List String}
    (hpc : (st.tasks t).pc = .purgeMemory keys) :
    Coherent ((st.setInst t { st.inst t with
      tokens := (st.inst t).tokens.removeAll keys
      refreshLocks := (st.inst t).refreshLocks.removeAll keys }).goto t (.purgeBackend keys)) := by
  refine ⟨?_, fun s => ?_⟩
  · show Guards ((st.setInst t _).instances 0).mutationLock _ _
    rw [h.instances_setInst, h.inst_eq]
    exact h.mutation.move (by simp [hpc, Pc.inMutation])
  · have hi := h.session s
    rw [view_goto, view_setInst]
    by_cases hs : s ∈ keys
    · have hview : ((st.view s).tasks t).pc = .purgeMemory := by
        show (st.tasks t).pc.view s = _
        rw [hpc]
        exact if_pos hs
      rw [show (Pc.purgeBackend keys).view s = .purgeBackend from if_pos hs]
      refine hi.toDelete (by rw [hview]; rfl) rfl rfl rfl (by simp) ?_ ?_
      · rfl
      · simp [Instance.view, HashMap.get?_removeAll, hs]
    · -- A session that is not purged sees a purge that is done.
      have hview : ((st.view s).tasks t).pc = .done none := by
        show (st.tasks t).pc.view s = _
        rw [hpc]
        exact if_neg hs
      have hsame : Inv ((st.view s).setInst t (Instance.view { st.inst t with
          tokens := (st.inst t).tokens.removeAll keys
          refreshLocks := (st.inst t).refreshLocks.removeAll keys } s)) := by
        refine hi.setInst (by rw [h.inst_eq]; rfl) fun token htoken => hi.coherent token ?_
        rw [h.inst_eq] at htoken
        simpa [Instance.view, HashMap.get?_removeAll, hs, State.view] using htoken
      rw [show (Pc.purgeBackend keys).view s = .done none from if_neg hs]
      exact hsame.pass (by rw [State.view, TokenProtocol.State.setInst]; exact hview ▸ rfl) rfl rfl

theorem Coherent.purgeBackend (h : Coherent st) {key : String} {keys : List String}
    (hpc : (st.tasks t).pc = .purgeBackend (key :: keys)) :
    Coherent ((st.goto t (.purgeBackend keys)).deleteRecord key) := by
  have hview : ∀ s, ((st.view s).tasks t).pc =
      if s ∈ key :: keys then .purgeBackend else .done none := by
    intro s
    show (st.tasks t).pc.view s = _
    rw [hpc]
    rfl
  refine ⟨h.mutation.move (by simp [hpc, Pc.inMutation]), fun s => ?_⟩
  by_cases hs : s = key
  · subst hs
    have hpurge : ((st.view s).tasks t).pc = .purgeBackend := by rw [hview]; exact if_pos (by simp)
    have hi : Inv { st.view s with record := none } :=
      (h.session s).carryOut (t := t) (by rw [hpurge]; rfl) (by rw [hpurge]; rfl)
    rw [view_deleteRecord_self, view_goto, Pc.view]
    split
    · refine hi.within (t := t) .purgeBackend (by rw [hpurge]; rfl) rfl rfl rfl rfl
        (Nat.le_refl _) (fun hrem => .inl hrem) ?_ (fun _ => rfl) (.of_no_refresh rfl (by simp))
        hi.overwrote
      intro token htoken
      have hgrant := hi.coherent token htoken
      rw [target_of_inside hi (t := t) (by rw [hpurge]; rfl), hpurge] at hgrant
      exact hgrant
    · exact hi.depart (t := t) (by rw [hpurge]; rfl) rfl (.of_no_refresh rfl (by simp))
  · rw [view_deleteRecord_of_ne hs, view_goto]
    have hsame : (Pc.purgeBackend keys).view s = ((st.view s).tasks t).pc := by
      rw [hview, Pc.view]
      simp [hs]
    rw [hsame]
    have hgoto : (st.view s).goto t ((st.view s).tasks t).pc = st.view s := by
      simp [TokenProtocol.State.goto, TokenProtocol.State.setTask]
    rw [hgoto]
    exact h.session s

/-- `purge_expired` ends. -/
theorem Coherent.release (h : Coherent st) (hin : (st.tasks t).pc.inMutation = true)
    (hviews : ∀ s, Inv (((st.view s).dropMutation t).goto t (.done none))) :
    Coherent ((st.dropMutation t).goto t .purged) := by
  refine ⟨?_, fun s => ?_⟩
  · show Guards ((st.setInst t _).instances 0).mutationLock _ _
    rw [h.instances_setInst]
    exact h.mutation.leave hin (by simp [Pc.inMutation])
  · rw [view_goto, State.dropMutation, view_setInst]
    exact hviews s

theorem Coherent.run {answer : Answer} (h : Coherent st)
    (hone : oneInstance st (.run t answer) = true) (hg : orderly st (.run t answer) = true)
    (hr : runSection st t answer = some st') : Coherent st' := by
  have hok : answer = .ok := by simpa [oneInstance] using hone
  subst hok
  cases hpc : (st.tasks t).pc with
  | idle => simp [runSection, hpc] at hr
  | purged => simp [runSection, hpc] at hr
  | «on» s pc =>
    simp only [runSection, hpc] at hr
    obtain ⟨new, hnew, rfl⟩ := Option.map_eq_some_iff.mp hr
    refine h.put hpc (TokenProtocol.runSection_local hnew) ?_
    exact (h.session s).run rfl (by simpa [orderly, hpc] using hg) hnew
  | purgeLock =>
    simp only [runSection, hpc] at hr
    split at hr <;> cases hr
    exact h.purgeLock ‹_›
  | purgeScan =>
    simp only [runSection, hpc] at hr
    split at hr <;> cases hr
    · have hin : (st.tasks t).pc.inMutation = true := by rw [hpc]; rfl
      refine h.release hin fun s => ?_
      have hview : ((st.view s).tasks t).pc = .purgeScan := by
        show (st.tasks t).pc.view s = _
        rw [hpc]
        rfl
      exact (h.session s).leave (by rw [hview]; rfl) rfl (.of_no_refresh rfl (by simp))
        (by rw [hview]; rfl)
    · exact h.purgeScan hpc
  | purgeMemory keys =>
    simp only [runSection, hpc, Option.some.injEq] at hr
    subst hr
    exact h.purgeMemory hpc
  | purgeBackend keys =>
    cases keys with
    | nil =>
      simp only [runSection, hpc, Option.some.injEq] at hr
      subst hr
      have hin : (st.tasks t).pc.inMutation = true := by rw [hpc]; rfl
      refine h.release hin fun s => ?_
      have hview : (st.view s).tasks t = ⟨(st.tasks t).inst, .done none⟩ := by
        show (st.tasks t).view s = _
        rw [Task.view, hpc]
        rfl
      refine (h.session s).elsewhere (fun u => ?_) rfl ?_ rfl rfl rfl
        (.inr (h.outside (by rw [show (st.tasks t).view s = _ from hview]; rfl) (.inr hin)))
      · by_cases hu : u = t
        · subst hu
          rw [hview]
          simp [TokenProtocol.State.goto, TokenProtocol.State.setTask,
            TokenProtocol.State.dropMutation, TokenProtocol.State.setInst, hview]
        · simp [TokenProtocol.State.goto, TokenProtocol.State.setTask,
            TokenProtocol.State.dropMutation, TokenProtocol.State.setInst, hu]
      · show (((st.view s).setInst t _).instances 0).token = _
        rw [TokenProtocol.Coherence.instances_setInst (h.session s),
          TokenProtocol.Coherence.inst_eq (h.session s)]
    | cons key keys =>
      simp only [runSection, hpc, Option.some.injEq] at hr
      subst hr
      exact h.purgeBackend hpc

/-- An operation starts outside the mutation lock, having seen nothing. -/
theorem start_view (op : Op) (s : String) {marks : Marks} {removedLast : Bool} :
    (op.start.view s).inMutation = false ∧ TaskOk marks removedLast (op.start.view s) := by
  have hon : ∀ (s' : String) (pc : TokenProtocol.Pc), pc.inMutation = false →
      TaskOk marks removedLast pc →
      ((Pc.on s' pc).view s).inMutation = false ∧
        TaskOk marks removedLast ((Pc.on s' pc).view s) := by
    intro s' pc hout hok
    rw [Pc.view]
    split
    · exact ⟨hout, hok⟩
    · exact ⟨rfl, .of_no_refresh rfl (by simp)⟩
  cases op with
  | get s' => exact hon s' _ rfl (.of_no_refresh rfl (by simp [TokenProtocol.Op.start]))
  | peek s' => exact hon s' _ rfl (.of_no_refresh rfl (by simp [TokenProtocol.Op.start]))
  | store s' token => exact hon s' _ rfl (.of_no_refresh rfl (by simp [TokenProtocol.Op.start]))
  | remove s' => exact hon s' _ rfl (.of_no_refresh rfl (by simp [TokenProtocol.Op.start]))
  | purge => exact ⟨rfl, .of_no_refresh rfl (by simp [Op.start, Pc.view])⟩

theorem Coherent.step {l : Label} (h : Coherent st) (hone : oneInstance st l = true)
    (hg : orderly st l = true) (hst : step st l = some st') : Coherent st' := by
  cases l with
  | tick d unix =>
    cases hst
    exact ⟨h.mutation, fun s => (h.session s).step (l := .tick d unix) rfl rfl rfl⟩
  | call t inst op =>
    have hzero : inst = 0 := by simpa [oneInstance] using hone
    simp only [TokenSessions.step] at hst
    split at hst
    · rename_i hpc
      cases hst
      have hstart : ({ inst := inst, pc := op.start } : Task) =
          { st.tasks t with pc := op.start } := by rw [hzero, ← h.single t]
      rw [hstart]
      refine h.goto (by rw [hpc]; cases op <;> rfl) fun s => ?_
      have hidle : ((st.view s).tasks t).pc = .idle := by
        show (st.tasks t).pc.view s = _
        rw [hpc]
        rfl
      obtain ⟨hout, hok⟩ := start_view op s
      exact (h.session s).goto (by rw [hidle]; rfl) hout hok
    · cases hst
  | run t answer => exact h.run hone hg hst
  | reply t response =>
    simp only [TokenSessions.step, replySection] at hst
    split at hst
    · rename_i s pc hpc
      obtain ⟨new, hnew, rfl⟩ := Option.map_eq_some_iff.mp hst
      exact h.put hpc (TokenProtocol.replySection_local hnew) ((h.session s).reply hnew)
    · cases hst
  | lapse s => cases hone

theorem coherent_init (clock : Clock) (refreshConfig : Bool)
    (records : String → Option PersistedToken) : Coherent (init clock refreshConfig records) := by
  refine ⟨fun t => ?_, fun s => ?_⟩
  · simp [init, Pc.inMutation]
  · exact inv_init clock refreshConfig (records s) fun _ => false

end Steps

/-! ## Memory and backend agree -/

/-- **Orderly runs are coherent.** On one instance over a reliable backend, in
every run in which tokens read from the backend enter memory only while the
backend holds them and refreshes store their results only over the grants they
read: no refresh overwrites a newer grant; and when all operations have
completed, every token in memory has the grant of its session's record, and a
session whose removal was last is in neither. -/
theorem coherent_of_orderly (clock : Clock) (refreshConfig : Bool)
    (records : String → Option PersistedToken) (st : State)
    (hr : system.Reach (fun st l => oneInstance st l = true ∧ orderly st l = true)
      (init clock refreshConfig records) st) :
    (∀ s, (st.sessions s).overwrote = false) ∧ (Quiet st → ∀ s,
      (∀ token, (st.instances 0).tokens.get? s = some token →
        ∃ p, (st.sessions s).record = some p ∧ p.grant = token.grant) ∧
      ((st.sessions s).removedLast = true →
        (st.instances 0).tokens.get? s = none ∧ (st.sessions s).record = none)) := by
  have h : Coherent st := hr.invariant (coherent_init clock refreshConfig records)
    fun _ _ _ h hg hs => h.step hg.1 hg.2 hs
  refine ⟨fun s => (h.session s).overwrote, fun hquiet s => ?_⟩
  have hview : TokenProtocol.Quiet (st.view s) := by
    intro t
    have hq := hquiet t
    have hpcview : ((st.view s).tasks t).pc = (st.tasks t).pc.view s := rfl
    rw [hpcview]
    cases hpc : (st.tasks t).pc with
    | «on» s' pc =>
      rw [hpc] at hq
      by_cases hs : s' = s
      · rw [Pc.view, if_pos hs]
        cases pc <;> trivial
      · rw [Pc.view, if_neg hs]
        trivial
    | idle => trivial
    | purged => trivial
    | purgeLock => simp [hpc, Pc.completed] at hq
    | purgeScan => simp [hpc, Pc.completed] at hq
    | purgeMemory keys => simp [hpc, Pc.completed] at hq
    | purgeBackend keys => simp [hpc, Pc.completed] at hq
  exact (h.session s).settled hview

/-- A token is stored, read from memory, and removed. -/
def storeGetRemove : List Label :=
  [.call 0 0 (.store "s" ⟨"a1", some "r1", none⟩), .run 0 .ok, .run 0 .ok, .run 0 .ok,
    .call 1 0 (.get "s"), .run 1 .ok,
    .call 2 0 (.remove "s"), .run 2 .ok, .run 2 .ok, .run 2 .ok, .run 2 .ok]

/-- A reader has loaded the record when the session is removed, and writes it
back afterwards. -/
def removedWhileReading : List Label :=
  [.call 0 0 (.get "s"), .run 0 .ok, .run 0 .ok,
    .call 1 0 (.remove "s"), .run 1 .ok, .run 1 .ok, .run 1 .ok, .run 1 .ok,
    .run 0 .ok]

/-- What a schedule of tasks below `n` leads to, if all of them complete. -/
theorem exists_quiet_of_run {G : State → Label → Prop} [∀ st l, Decidable (G st l)] {s : State}
    {w : List Label} {p : State → Bool} (n : Nat)
    (h : (system.run G s w).any (fun st' =>
      p st' && (List.range n).all fun t => (st'.tasks t).pc.completed) = true)
    (hw : ∀ l ∈ w, ∀ t, l.task = some t → t < n) (hidle : ∀ t, (s.tasks t).pc = .idle) :
    ∃ st', system.Reach G s st' ∧ Quiet st' ∧ p st' = true := by
  obtain ⟨st', hrun, hp⟩ := (Option.any_eq_true _ _).mp h
  obtain ⟨hp, hall⟩ := Bool.and_eq_true_iff.mp hp
  refine ⟨st', System.reach_of_run hrun, fun t => ?_, hp⟩
  by_cases ht : t < n
  · exact List.all_eq_true.mp hall t (List.mem_range.mpr ht)
  · rw [run_tasks hrun fun l hl heq => ht (hw l hl t heq), hidle]
    rfl

theorem coherent_when_removed_last :
    ∃ st : State, (st.sessions "s").removedLast = true ∧
      (st.tasks 1).pc = .on "s" (.done (some ⟨"a1", some "r1", none⟩)) ∧
      (st.instances 0).tokens.get? "s" = none ∧ (st.sessions "s").record = none := by
  obtain ⟨st, hr, hquiet, hp⟩ := exists_quiet_of_run
    (G := fun st l => oneInstance st l = true ∧ orderly st l = true)
    (s := init ⟨0, 0⟩ true fun _ => none) (w := storeGetRemove)
    (p := fun st => decide ((st.sessions "s").removedLast = true ∧
      (st.tasks 1).pc = .on "s" (.done (some ⟨"a1", some "r1", none⟩))))
    3 (by decide +kernel) (by decide) fun _ => rfl
  obtain ⟨hrem, hpc⟩ := of_decide_eq_true hp
  have h := coherent_of_orderly ⟨0, 0⟩ true (fun _ => none) st hr
  exact ⟨st, hrem, hpc, (h.2 hquiet "s").2 hrem⟩

/-- The token is in memory and not in the backend. -/
theorem write_back_undoes_removal :
    ¬ ∀ (clock : Clock) (refreshConfig : Bool) (records : String → Option PersistedToken)
      (st : State),
      system.Reach (fun st l => oneInstance st l = true)
        (init clock refreshConfig records) st →
      (∀ s, (st.sessions s).overwrote = false) ∧ (Quiet st → ∀ s,
        (∀ token, (st.instances 0).tokens.get? s = some token →
          ∃ p, (st.sessions s).record = some p ∧ p.grant = token.grant) ∧
        ((st.sessions s).removedLast = true →
          (st.instances 0).tokens.get? s = none ∧ (st.sessions s).record = none)) := by
  intro h
  obtain ⟨st, hr, hquiet, hp⟩ := exists_quiet_of_run
    (G := fun st l => oneInstance st l = true)
    (s := init ⟨0, 0⟩ true fun _ => some ⟨"a1", some "r1", none, none⟩) (w := removedWhileReading)
    (p := fun st => decide ((st.sessions "s").removedLast = true ∧
      (st.instances 0).tokens.get? "s" ≠ none))
    2 (by decide +kernel) (by decide) fun _ => rfl
  obtain ⟨hrem, htoken⟩ := of_decide_eq_true hp
  have hbad := h ⟨0, 0⟩ true (fun _ => some ⟨"a1", some "r1", none, none⟩) st hr
  exact htoken ((hbad.2 hquiet "s").2 hrem).1

end McpFramework.TokenSessions
