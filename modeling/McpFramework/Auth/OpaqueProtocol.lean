import McpFramework.Auth.OpaqueIndex
import McpFramework.Lib.Mutex
import McpFramework.Lib.Transition

/-!
# Auth — OpaqueProtocol

`store_opaque_mapping`, `remove_opaque_for_session` and the two resolves of any
number of instances over one backend (`auth/store.rs`), cut at their awaits.

Ghost state, which no section reads: a mapping is known by the call that stored
it, an `Issue`. `returned` holds the issues of the calls that have returned, and
a rotation or removal is `prior`ed by those that had when it was called: these
are what it ends. It adds them to its instance's `superseded` when it updates
the index, and to that instance's `dead` and to `revoked` when it returns. A
resolve is `barred` from what was dead when it looked at the index, and from all
that was revoked of the sessions the index did not have.
-/

namespace McpFramework.OpaqueProtocol

open Lib

/-! ## Data -/

/-- Ghost: a session and the call that stored a mapping for it. -/
abbrev Issue := String × Nat

/-- `superseded` and `dead` are ghost. -/
structure Instance where
  index : OpaqueIndex
  mutationLock : Option Nat
  superseded : List Issue
  dead : List Issue

inductive Op where
  | store (sessionId opaqueAccess opaqueRefresh : String) (accessTtl : Nat)
  | remove (sessionId : String)
  | resolve (kind : OpaqueKind) (token : String)

inductive Pc where
  | idle
  | storeLock (sessionId opaqueAccess opaqueRefresh : String) (accessTtl : Nat)
  | storeIndex (sessionId : String) (mapping : PersistedOpaqueMapping)
  | storeForward (sessionId : String) (mapping : PersistedOpaqueMapping)
      (old : Option PersistedOpaqueMapping)
  | storeInverse (kind : OpaqueKind) (sessionId : String) (mapping : PersistedOpaqueMapping)
      (old : Option PersistedOpaqueMapping)
  | storeDrop (kind : OpaqueKind) (sessionId : String) (old : PersistedOpaqueMapping)
  | removeLock (sessionId : String)
  | removeIndex (sessionId : String)
  | removeLookup (sessionId : String)
  | removeForward (sessionId : String) (opaques : Option PersistedOpaqueMapping)
  | removeDrop (kind : OpaqueKind) (sessionId : String) (mapping : PersistedOpaqueMapping)
  | lookup (kind : OpaqueKind) (token : String)
  | expireLock (opaqueAccess : String)
  | expireIndex (opaqueAccess : String)
  | expireBackend (opaqueAccess : String)
  | loadInverse (kind : OpaqueKind) (token : String)
  | loadMapping (kind : OpaqueKind) (token sessionId : String)
  | dropInverse (kind : OpaqueKind) (token : String)
  | hydrate (sessionId : String) (mapping : PersistedOpaqueMapping)
  | done (result : Option String)
deriving DecidableEq

structure Task where
  inst : Nat
  pc : Pc
  prior : List Issue
  barred : List Issue

/-- `forward` is the namespace of the mappings and `inverse` those of the opaque
tokens. `breached` is ghost: a resolve has returned a session for an issue it was
barred from. -/
structure State where
  clock : Clock
  forward : String → Option PersistedOpaqueMapping
  inverse : OpaqueKind → String → Option String
  instances : Nat → Instance
  tasks : Nat → Task
  returned : List Issue
  revoked : List Issue
  breached : Bool

/-- What the backend makes of a call. -/
inductive Answer where
  | ok
  | err
deriving DecidableEq

inductive Label where
  /-- `d` passes, after which the system clocks read `unix`. -/
  | tick (d unix : Nat)
  | call (t inst : Nat) (op : Op)
  /-- Task `t` runs its next section. -/
  | run (t : Nat) (answer : Answer)
  /-- The backend drops a mapping at the end of its TTL. -/
  | lapse (sessionId : String)
  /-- The backend drops a token's entry at the end of its TTL. -/
  | lapseInverse (kind : OpaqueKind) (token : String)

def init (clock : Clock) : State :=
  { clock := clock, forward := fun _ => none, inverse := fun _ _ => none
    instances := fun _ =>
      { index := .empty, mutationLock := none, superseded := [], dead := [] }
    tasks := fun _ => { inst := 0, pc := .idle, prior := [], barred := [] }
    returned := [], revoked := [], breached := false }

namespace State

def setTask (st : State) (t : Nat) (task : Task) : State :=
  { st with tasks := Function.update st.tasks t task }

def goto (st : State) (t : Nat) (pc : Pc) : State :=
  st.setTask t { st.tasks t with pc := pc }

/-- The instance a task runs on. -/
def inst (st : State) (t : Nat) : Instance := st.instances (st.tasks t).inst

def setInst (st : State) (t : Nat) (inst : Instance) : State :=
  { st with instances := Function.update st.instances (st.tasks t).inst inst }

def setForward (st : State) (sessionId : String) (mapping : Option PersistedOpaqueMapping) :
    State :=
  { st with forward := Function.update st.forward sessionId mapping }

def setInverse (st : State) (kind : OpaqueKind) (token : String) (sessionId : Option String) :
    State :=
  { st with
    inverse := Function.update st.inverse kind
      (Function.update (st.inverse kind) token sessionId) }

/-- What a rotation or removal of the session that starts now ends. -/
def prior (st : State) (sessionId : String) : List Issue :=
  st.returned.filter fun e => e.1 = sessionId

/-- What a resolve that starts now must not resolve. -/
def barred (st : State) (t : Nat) : List Issue :=
  (st.inst t).dead ++
    st.revoked.filter fun e => ((st.inst t).index.sessionToOpaques e.1).isNone

end State

/-! ## The sections -/

section Sections

/-- The mutation lock is taken. -/
def lockMutation (st : State) (t : Nat) (pc : Pc) : Option State :=
  match (st.inst t).mutationLock with
  | none => some ((st.setInst t { st.inst t with mutationLock := some t }).goto t pc)
  | some _ => none

/-- A rotation or removal returns, and releases the mutation lock. -/
def finish (st : State) (t : Nat) (stored : List Issue) : State :=
  let task := st.tasks t
  let inst := st.inst t
  { (st.setInst t { inst with mutationLock := none, dead := task.prior ++ inst.dead }).goto t
      (.done none) with
    returned := stored ++ st.returned
    revoked := task.prior ++ st.revoked }

/-- The index is rid of what the operation ends. -/
def supersede (st : State) (t : Nat) (index : OpaqueIndex) : State :=
  let inst := st.inst t
  st.setInst t { inst with index := index, superseded := (st.tasks t).prior ++ inst.superseded }

/-- A resolve returns the session of a mapping. -/
def answer (st : State) (t : Nat) (barred : List Issue) (sessionId : String) (issue : Nat) :
    State :=
  { st.goto t (.done (some sessionId)) with
    breached := st.breached || decide ((sessionId, issue) ∈ barred) }

/-- The first section of a resolve. -/
def lookupSection (st : State) (t : Nat) (kind : OpaqueKind) (token : String) : State :=
  let barred := st.barred t
  match (st.inst t).index.toSession kind token with
  | some binding =>
    if binding.expiresAt > st.clock.now then
      answer st t barred binding.sessionId binding.issue
    else
      match kind with
      | .access => st.goto t (.expireLock token)
      | .refresh =>
        st.setTask t { st.tasks t with
          pc := .removeLock binding.sessionId
          prior := st.prior binding.sessionId }
  | none => st.setTask t { st.tasks t with pc := .loadInverse kind token, barred := barred }

def runSection (st : State) (t : Nat) (reply : Answer) : Option State :=
  let inst := st.inst t
  let written (st' : State) : State := if reply = .ok then st' else st
  match (st.tasks t).pc with
  | .idle => none
  | .storeLock sessionId opaqueAccess opaqueRefresh accessTtl =>
    lockMutation st t (.storeIndex sessionId
      { opaqueAccess := opaqueAccess, opaqueRefresh := opaqueRefresh
        accessExpiresAtUnixMs := instantToUnixMillis st.clock (st.clock.now + accessTtl)
        refreshExpiresAtUnixMs := instantToUnixMillis st.clock (st.clock.now + OPAQUE_REFRESH_TTL)
        issue := t })
  | .storeIndex sessionId mapping =>
    let r := inst.index.removeSession sessionId
    some ((supersede st t (r.1.insert st.clock sessionId mapping)).goto t
      (.storeForward sessionId mapping r.2))
  | .storeForward sessionId mapping old =>
    -- The authoritative forward mapping goes first: readers validate inverse
    -- entries against it.
    some ((written (st.setForward sessionId (some mapping))).goto t
      (.storeInverse .access sessionId mapping old))
  | .storeInverse .access sessionId mapping old =>
    some ((written (st.setInverse .access mapping.opaqueAccess (some sessionId))).goto t
      (.storeInverse .refresh sessionId mapping old))
  | .storeInverse .refresh sessionId mapping old =>
    let st' := written (st.setInverse .refresh mapping.opaqueRefresh (some sessionId))
    match old with
    | some old => some (st'.goto t (.storeDrop .access sessionId old))
    | none => some (finish st' t [(sessionId, t)])
  | .storeDrop .access sessionId old =>
    some ((written (st.setInverse .access old.opaqueAccess none)).goto t
      (.storeDrop .refresh sessionId old))
  | .storeDrop .refresh sessionId old =>
    some (finish (written (st.setInverse .refresh old.opaqueRefresh none)) t [(sessionId, t)])
  | .removeLock sessionId => lockMutation st t (.removeIndex sessionId)
  | .removeIndex sessionId =>
    let r := inst.index.removeSession sessionId
    some ((supersede st t r.1).goto t
      (match r.2 with
        | some mapping => .removeForward sessionId (some mapping)
        | none => .removeLookup sessionId))
  | .removeLookup sessionId =>
    some (st.goto t (.removeForward sessionId
      (if reply = .ok then st.forward sessionId else none)))
  | .removeForward sessionId opaques =>
    let st' := written (st.setForward sessionId none)
    match opaques with
    | some mapping => some (st'.goto t (.removeDrop .access sessionId mapping))
    | none => some (finish st' t [])
  | .removeDrop .access sessionId mapping =>
    some ((written (st.setInverse .access mapping.opaqueAccess none)).goto t
      (.removeDrop .refresh sessionId mapping))
  | .removeDrop .refresh _ mapping =>
    some (finish (written (st.setInverse .refresh mapping.opaqueRefresh none)) t [])
  | .lookup kind token => some (lookupSection st t kind token)
  | .expireLock opaqueAccess => lockMutation st t (.expireIndex opaqueAccess)
  | .expireIndex opaqueAccess =>
    some ((st.setInst t { inst with index := inst.index.setBinding .access opaqueAccess none }).goto
      t (.expireBackend opaqueAccess))
  | .expireBackend opaqueAccess =>
    let st' := written (st.setInverse .access opaqueAccess none)
    some ((st'.setInst t { inst with mutationLock := none }).goto t (.done none))
  | .loadInverse kind token =>
    match reply, st.inverse kind token with
    | .ok, some sessionId => some (st.goto t (.loadMapping kind token sessionId))
    | _, _ => some (st.goto t (.done none))
  | .loadMapping kind token sessionId =>
    match reply, st.forward sessionId with
    | .ok, some mapping =>
      if mapping.token kind ≠ token ∨
          remainingUntilUnixMillis st.clock (mapping.expiresAtUnixMs kind) = 0 then
        some (st.goto t (.dropInverse kind token))
      else some (st.goto t (.hydrate sessionId mapping))
    | _, _ => some (st.goto t (.done none))
  | .dropInverse kind token =>
    some ((written (st.setInverse kind token none)).goto t (.done none))
  | .hydrate sessionId mapping =>
    some (answer
      (st.setInst t { inst with index := inst.index.insert st.clock sessionId mapping }) t
      (st.tasks t).barred sessionId mapping.issue)
  | .done _ => none

def Op.start : Op → Pc
  | .store sessionId opaqueAccess opaqueRefresh accessTtl =>
    .storeLock sessionId opaqueAccess opaqueRefresh accessTtl
  | .remove sessionId => .removeLock sessionId
  | .resolve kind token => .lookup kind token

def storeOpaqueMapping (sessionId opaqueAccess opaqueRefresh : String) : Op :=
  .store sessionId opaqueAccess opaqueRefresh OPAQUE_ACCESS_TTL

/-- What a call ends. -/
def Op.prior (st : State) : Op → List Issue
  | .store sessionId _ _ _ => st.prior sessionId
  | .remove sessionId => st.prior sessionId
  | .resolve _ _ => []

def step (st : State) : Label → Option State
  | .tick d unix => some { st with clock := ⟨st.clock.now + d, unix⟩ }
  | .call t inst op =>
    match (st.tasks t).pc with
    | .idle =>
      some (st.setTask t { inst := inst, pc := op.start, prior := op.prior st, barred := [] })
    | _ => none
  | .run t reply => runSection st t reply
  | .lapse sessionId => some (st.setForward sessionId none)
  | .lapseInverse kind token => some (st.setInverse kind token none)

def system : System State Label := ⟨step⟩

end Sections

/-! ## What a section leaves alone -/

/-- The sections under the mutation lock. -/
def Pc.inMutation : Pc → Bool
  | .storeIndex _ _ => true
  | .storeForward _ _ _ => true
  | .storeInverse _ _ _ _ => true
  | .storeDrop _ _ _ => true
  | .removeIndex _ => true
  | .removeLookup _ => true
  | .removeForward _ _ => true
  | .removeDrop _ _ _ => true
  | .expireIndex _ => true
  | .expireBackend _ => true
  | _ => false

section Frame

variable {st st' : State} {t : Nat} {pc : Pc}

theorem goto_pc (st : State) (t : Nat) (pc : Pc) : ((st.goto t pc).tasks t).pc = pc := by
  simp [State.goto, State.setTask]

theorem finish_pc (st : State) (t : Nat) (stored : List Issue) :
    ((finish st t stored).tasks t).pc = .done none := goto_pc ..

theorem answer_pc (st : State) (t : Nat) (barred : List Issue) (s : String) (issue : Nat) :
    ((answer st t barred s issue).tasks t).pc = .done (some s) := goto_pc ..

/-- A section touches its own task and instance only, and the mutation lock only
to take it or to give it back. -/
structure Local (st st' : State) (t : Nat) : Prop where
  clock : st'.clock = st.clock
  tasks : ∀ u, u ≠ t → st'.tasks u = st.tasks u
  sameInst : (st'.tasks t).inst = (st.tasks t).inst
  instances : ∀ i, i ≠ (st.tasks t).inst → st'.instances i = st.instances i
  mutation : Moves (fun task : Task => task.pc.inMutation = true) t (st.tasks t) (st'.tasks t)
    (st.inst t).mutationLock (st'.instances (st.tasks t).inst).mutationLock

theorem Local.setTask {task : Task} (hinst : task.inst = (st.tasks t).inst)
    (hpc : task.pc.inMutation = (st.tasks t).pc.inMutation) : Local st (st.setTask t task) t := by
  refine ⟨rfl, fun u hu => Function.update_of_ne hu .., ?_, fun _ _ => rfl, .stay ?_⟩
  · simpa [State.setTask] using hinst
  · simp [State.setTask, hpc]

theorem Local.goto (hpc : pc.inMutation = (st.tasks t).pc.inMutation) :
    Local st (st.goto t pc) t := .setTask rfl hpc

/-- A change of the instance that leaves the mutation lock alone goes before. -/
theorem Local.afterInst {inst : Instance} (h : Local (st.setInst t inst) st' t)
    (hlock : inst.mutationLock = (st.inst t).mutationLock) : Local st st' t := by
  have hmut := h.mutation
  refine ⟨h.clock, h.tasks, h.sameInst, fun i hi => ?_, ?_⟩
  · rw [h.instances i hi]
    exact Function.update_of_ne hi ..
  · simp only [State.inst, State.setInst, Function.update_self, hlock] at hmut
    exact hmut

theorem Local.enter (hfree : (st.inst t).mutationLock = none) :
    Local st ((st.setInst t { st.inst t with mutationLock := some t }).goto t pc) t := by
  refine ⟨rfl, fun u hu => Function.update_of_ne hu .., ?_, fun i hi => Function.update_of_ne hi ..,
    ?_⟩
  · simp [State.goto, State.setTask, State.setInst]
  · show Moves _ t _ _ _ ((Function.update st.instances (st.tasks t).inst _) _).mutationLock
    rw [Function.update_self, hfree]
    exact .enter

theorem Local.leave (hin : (st.tasks t).pc.inMutation = true) (hpc : pc.inMutation = false)
    {inst : Instance} (hlock : inst.mutationLock = none) :
    Local st ((st.setInst t inst).goto t pc) t := by
  refine ⟨rfl, fun u hu => Function.update_of_ne hu .., ?_, fun i hi => Function.update_of_ne hi ..,
    ?_⟩
  · simp [State.goto, State.setTask, State.setInst]
  · show Moves _ t _ _ _ ((Function.update st.instances (st.tasks t).inst _) _).mutationLock
    rw [Function.update_self, hlock]
    exact .leave hin (by simp [State.goto, State.setTask, hpc])

/-- A write to the backend goes before. -/
theorem Local.afterBackend {mid : State} (h : Local mid st' t) (hclock : mid.clock = st.clock)
    (htasks : mid.tasks = st.tasks) (hinsts : mid.instances = st.instances) :
    Local st st' t := by
  have hmut := h.mutation
  have hinst := h.instances
  have hsame := h.sameInst
  simp only [State.inst, htasks, hinsts] at hmut hinst hsame
  exact ⟨h.clock.trans hclock, fun u hu => (h.tasks u hu).trans (by rw [htasks]), hsame,
    fun i hi => hinst i hi, hmut⟩

theorem Local.finish (hin : (st.tasks t).pc.inMutation = true) (stored : List Issue) :
    Local st (finish st t stored) t := by
  have hleave : Local st ((st.setInst t { st.inst t with
      mutationLock := none, dead := (st.tasks t).prior ++ (st.inst t).dead }).goto t (.done none))
      t := .leave hin rfl rfl
  exact { hleave with }

theorem Local.answer (hout : (st.tasks t).pc.inMutation = false) (barred : List Issue)
    (sessionId : String) (issue : Nat) : Local st (answer st t barred sessionId issue) t := by
  have hgoto : Local st (st.goto t (.done (some sessionId))) t := .goto (by rw [hout]; rfl)
  exact { hgoto with }

theorem lookupSection_local {kind : OpaqueKind} {token : String}
    (hout : (st.tasks t).pc.inMutation = false) : Local st (lookupSection st t kind token) t := by
  unfold lookupSection
  split
  · split
    · exact .answer hout _ _ _
    · cases kind with
      | access => exact .goto (by rw [hout]; rfl)
      | refresh => exact .setTask rfl (by rw [hout]; rfl)
  · exact .setTask rfl (by rw [hout]; rfl)

theorem lockMutation_local (h : lockMutation st t pc = some st') : Local st st' t := by
  unfold lockMutation at h
  split at h <;> cases h
  exact .enter ‹_›

theorem runSection_local {reply : Answer} (h : runSection st t reply = some st') :
    Local st st' t := by
  cases hpc : (st.tasks t).pc with
  | idle => simp [runSection, hpc] at h
  | done result => simp [runSection, hpc] at h
  | storeLock s a r ttl =>
    simp only [runSection, hpc] at h
    exact lockMutation_local h
  | storeIndex s m =>
    simp only [runSection, hpc, Option.some.injEq] at h
    subst h
    exact .afterInst (.goto (by rw [State.setInst, hpc]; rfl)) rfl
  | storeForward s m old =>
    simp only [runSection, hpc, Option.some.injEq] at h
    subst h
    cases reply <;> exact .afterBackend (.goto (by simp [State.setForward, hpc, Pc.inMutation]))
      rfl rfl rfl
  | storeInverse kind s m old =>
    cases kind with
    | access =>
      simp only [runSection, hpc, Option.some.injEq] at h
      subst h
      cases reply <;> exact .afterBackend (.goto (by simp [State.setInverse, hpc, Pc.inMutation]))
        rfl rfl rfl
    | refresh =>
      cases old with
      | none =>
        simp only [runSection, hpc, Option.some.injEq] at h
        subst h
        cases reply <;> exact .afterBackend (.finish (by simp [State.setInverse, hpc,
          Pc.inMutation]) _) rfl rfl rfl
      | some old =>
        simp only [runSection, hpc, Option.some.injEq] at h
        subst h
        cases reply <;> exact .afterBackend (.goto (by simp [State.setInverse, hpc,
          Pc.inMutation])) rfl rfl rfl
  | storeDrop kind _ _ | removeDrop kind _ _ =>
    cases kind with
    | access =>
      simp only [runSection, hpc, Option.some.injEq] at h
      subst h
      cases reply <;> exact .afterBackend (.goto (by simp [State.setInverse, hpc, Pc.inMutation]))
        rfl rfl rfl
    | refresh =>
      simp only [runSection, hpc, Option.some.injEq] at h
      subst h
      cases reply <;> exact .afterBackend (.finish (by simp [State.setInverse, hpc, Pc.inMutation])
        _) rfl rfl rfl
  | removeLock _ | expireLock _ =>
    simp only [runSection, hpc] at h
    exact lockMutation_local h
  | removeIndex s =>
    simp only [runSection, hpc, Option.some.injEq] at h
    subst h
    refine .afterInst (.goto ?_) rfl
    simp only [State.setInst, hpc]
    split <;> rfl
  | removeLookup s =>
    simp only [runSection, hpc, Option.some.injEq] at h
    subst h
    exact .goto (by rw [hpc]; rfl)
  | removeForward s opaques =>
    cases opaques with
    | none =>
      simp only [runSection, hpc, Option.some.injEq] at h
      subst h
      cases reply <;> exact .afterBackend (.finish (by simp [State.setForward, hpc, Pc.inMutation])
        _) rfl rfl rfl
    | some m =>
      simp only [runSection, hpc, Option.some.injEq] at h
      subst h
      cases reply <;> exact .afterBackend (.goto (by simp [State.setForward, hpc, Pc.inMutation]))
        rfl rfl rfl
  | lookup kind token =>
    simp only [runSection, hpc, Option.some.injEq] at h
    subst h
    exact lookupSection_local (by rw [hpc]; rfl)
  | expireIndex a =>
    simp only [runSection, hpc, Option.some.injEq] at h
    subst h
    exact .afterInst (.goto (by rw [State.setInst, hpc]; rfl)) rfl
  | expireBackend a =>
    simp only [runSection, hpc, Option.some.injEq] at h
    subst h
    cases reply <;> exact .afterBackend (.leave (by simp [State.setInverse, hpc, Pc.inMutation]) rfl
      rfl) rfl rfl rfl
  | loadInverse kind token =>
    simp only [runSection, hpc] at h
    split at h <;> cases h <;> exact .goto (by rw [hpc]; rfl)
  | loadMapping kind token s =>
    simp only [runSection, hpc] at h
    split at h
    · split at h <;> cases h <;> exact .goto (by rw [hpc]; rfl)
    · cases h
      exact .goto (by rw [hpc]; rfl)
  | dropInverse kind token =>
    simp only [runSection, hpc, Option.some.injEq] at h
    subst h
    cases reply <;> exact .afterBackend (.goto (by simp [State.setInverse, hpc, Pc.inMutation]))
      rfl rfl rfl
  | hydrate s m =>
    simp only [runSection, hpc, Option.some.injEq] at h
    subst h
    exact .afterInst (.answer (by rw [State.setInst, hpc]; rfl) _ _ _) rfl

end Frame

end McpFramework.OpaqueProtocol
