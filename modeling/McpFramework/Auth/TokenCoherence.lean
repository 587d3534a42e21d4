import McpFramework.Auth.TokenProtocol

/-!
# Auth — TokenCoherence

When memory and backend agree on one instance, removals last, and a refresh
leaves newer grants alone.

The mutation lock makes each `store_token`, `remove_token` and `purge_expired`
one unit, whose outcome for the backend is settled once its memory section has
run (`target`). What does not take the lock are the two places that put a token
read from the backend into memory, the write-back of a read-through and the
adoption of a persisted token; they keep memory coherent only while that token
is still what the backend holds or is about to hold. And a refresh takes the
lock only for its result, long after it read its refresh token (`orderly`).
-/

namespace McpFramework

/-- What a grant consists of: the access and the refresh token. -/
def StoredToken.grant (token : StoredToken) : String × Option String :=
  (token.accessToken, token.refreshToken)

def PersistedToken.grant (token : PersistedToken) : String × Option String :=
  (token.accessToken, token.refreshToken)

namespace TokenProtocol

open Lib

/-! ## One instance -/

/-- What the operation will have made of the record when it releases the
mutation lock, as far as it has committed itself in memory. -/
def Pc.plan (pc : Pc) (record : Option PersistedToken) : Option PersistedToken :=
  match pc with
  | .storeBackend _ persisted => some persisted
  | .removeRefreshLock => none
  | .removeBackend => none
  | .purgeBackend => none
  | _ => record

/-- What the backend holds, or is about to hold. -/
def target (st : State) : Option PersistedToken :=
  match (st.instances 0).mutationLock with
  | some t => (st.tasks t).pc.plan st.record
  | none => st.record

/-- One instance, a backend that answers every call, and no record that runs out
there. -/
def oneInstance (_ : State) : Label → Bool
  | .call _ inst _ => decide (inst = 0)
  | .run _ answer => decide (answer = .ok)
  | .lapse => false
  | _ => true

/-- A token read from the backend is put into memory only while it has the grant
the backend holds or is about to hold, and a refresh stores its result only if
no `store_token`, its own callers' or another refresh's, and no `remove_token`
came since it read its refresh token. -/
def orderly (st : State) : Label → Bool
  | .run t _ =>
    match (st.tasks t).pc with
    | .rawWriteBack _ token =>
      (st.inst t).token.isSome || decide ((target st).map (·.grant) = some token.grant)
    | .adoptWrite _ _ token => decide ((target st).map (·.grant) = some token.grant)
    | .storeMemory (.refresh _ seen) _ _ => decide (seen = st.marks)
    | _ => true
  | _ => true

/-- All operations have completed. -/
def Quiet (st : State) : Prop :=
  ∀ t, match (st.tasks t).pc with
    | .idle | .done _ | .panicked => True
    | _ => False

namespace Coherence

/-- What a refresh under way has seen. -/
def seen : Pc → Option Marks
  | .send _ _ seen => some seen
  | .awaitReply _ _ seen => some seen
  | .storeLock (.refresh _ seen) _ => some seen
  | .storeMemory (.refresh _ seen) _ _ => some seen
  | _ => none

/-- A refresh that is under way when a removal was last began before it. -/
structure TaskOk (marks : Marks) (removedLast : Bool) (pc : Pc) : Prop where
  seen : ∀ m, seen pc = some m → m.removals ≤ marks.removals ∧
    (removedLast = true → m.removals < marks.removals)
  persisted : ∀ w token p, pc = .storeMemory w token p → p.grant = token.grant

/-- The invariant of one instance. -/
structure Inv (st : State) : Prop where
  single : ∀ t, (st.tasks t).inst = 0
  mutation : Guards (st.instances 0).mutationLock
    (fun task : Task => task.pc.inMutation = true) st.tasks
  coherent : ∀ token, (st.instances 0).token = some token →
    (target st).map (·.grant) = some token.grant
  removed : st.removedLast = true → target st = none
  tasks : ∀ t, TaskOk st.marks st.removedLast (st.tasks t).pc
  overwrote : st.overwrote = false

variable {st st' : State} {t : Nat} {pc : Pc} {marks marks' : Marks} {removedLast : Bool}

theorem plan_of_outside (h : pc.inMutation = false) (record : Option PersistedToken) :
    pc.plan record = record := by
  cases pc <;> first | rfl | cases h

theorem TaskOk.of_no_refresh (h : Coherence.seen pc = none)
    (hp : ∀ w token p, pc = .storeMemory w token p → p.grant = token.grant) :
    TaskOk marks removedLast pc :=
  ⟨fun m hm => by simp [h] at hm, hp⟩

theorem TaskOk.mono (h : TaskOk marks removedLast pc) {removedLast' : Bool}
    (hm : marks.removals ≤ marks'.removals)
    (hr : removedLast' = true → removedLast = true ∨ marks.removals < marks'.removals) :
    TaskOk marks' removedLast' pc := by
  refine ⟨fun m hs => ?_, h.persisted⟩
  obtain ⟨hle, hlt⟩ := h.seen m hs
  refine ⟨Nat.le_trans hle hm, fun hrem => ?_⟩
  rcases hr hrem with hr | hr
  · exact Nat.lt_of_lt_of_le (hlt hr) hm
  · exact Nat.lt_of_le_of_lt hle hr

theorem target_of_inside (hi : Inv st) (hin : (st.tasks t).pc.inMutation = true) :
    target st = (st.tasks t).pc.plan st.record := by
  have hlock := hi.mutation.holder_eq hin
  simp only [target, hlock]

theorem instances_setInst (hi : Inv st) (inst : Instance) :
    (st.setInst t inst).instances 0 = inst := by
  rw [State.setInst_instances, hi.single t, Function.update_self]

theorem inst_eq (hi : Inv st) : st.inst t = st.instances 0 := by
  rw [State.inst, hi.single t]

/-- An operation goes on outside the mutation lock, with nothing left to do in
the backend. -/
theorem Inv.depart (hi : Inv st) (hplan : (st.tasks t).pc.plan st.record = st.record)
    (hpc : pc.inMutation = false) (htask : TaskOk st.marks st.removedLast pc) :
    Inv (st.goto t pc) := by
  have htarget : target (st.goto t pc) = target st := by
    have hplan : ∀ u, ((st.goto t pc).tasks u).pc.plan st.record =
        (st.tasks u).pc.plan st.record := by
      refine (forall_update_iff (P := fun u (task : Task) => task.pc.plan st.record =
        (st.tasks u).pc.plan st.record)).mpr ⟨?_, fun u _ => rfl⟩
      rw [plan_of_outside hpc, hplan]
    show (match (st.instances 0).mutationLock with
      | some u => ((st.goto t pc).tasks u).pc.plan st.record
      | none => st.record) = target st
    unfold target
    split
    · exact hplan _
    · rfl
  refine ⟨?_, ?_, ?_, ?_, ?_, hi.overwrote⟩
  · exact (forall_update_iff (P := fun _ (task : Task) => task.inst = 0)).mpr
      ⟨hi.single t, fun u _ => hi.single u⟩
  · exact hi.mutation.depart (by simp [hpc])
  · intro token htoken
    rw [htarget]
    exact hi.coherent token htoken
  · intro hrem
    rw [htarget]
    exact hi.removed hrem
  · exact (forall_update_iff (P := fun _ (task : Task) =>
      TaskOk st.marks st.removedLast task.pc)).mpr ⟨htask, fun u _ => hi.tasks u⟩

/-- Steps outside the mutation lock. -/
theorem Inv.goto (hi : Inv st) (hout : (st.tasks t).pc.inMutation = false)
    (hpc : pc.inMutation = false) (htask : TaskOk st.marks st.removedLast pc) :
    Inv (st.goto t pc) :=
  hi.depart (plan_of_outside hout st.record) hpc htask

/-- A step outside the mutation lock, to a point where no refresh is under way. -/
theorem Inv.pass (hi : Inv st) (hout : (st.tasks t).pc.inMutation = false)
    (hpc : pc.inMutation = false) (hseen : Coherence.seen pc = none) : Inv (st.goto t pc) := by
  apply hi.goto hout hpc (.of_no_refresh hseen _)
  intro w token p h
  subst h
  cases hpc

/-- Changes of the instance that leave the mutation lock alone, with a token the
backend holds or is about to hold. -/
theorem Inv.setInst (hi : Inv st) {inst : Instance}
    (hlock : inst.mutationLock = (st.instances 0).mutationLock)
    (htoken : ∀ token, inst.token = some token →
      (target st).map (·.grant) = some token.grant) : Inv (st.setInst t inst) := by
  have hinst := instances_setInst (t := t) hi inst
  have htarget : target (st.setInst t inst) = target st := by
    simp only [target, hinst, hlock]
    rfl
  refine ⟨hi.single, ?_, ?_, ?_, hi.tasks, hi.overwrote⟩
  · rw [hinst, hlock]
    exact hi.mutation
  · intro token h
    rw [hinst] at h
    rw [htarget]
    exact htoken token h
  · intro hrem
    rw [htarget]
    exact hi.removed hrem

theorem Inv.setToken (hi : Inv st) {token : StoredToken}
    (htoken : (target st).map (·.grant) = some token.grant) :
    Inv (st.setToken t (some token)) := by
  refine hi.setInst ?_ ?_
  · rw [inst_eq hi]
  · intro token' h
    cases h
    exact htoken

/-- Changes of the instance that leave its token and the mutation lock alone. -/
theorem Inv.keepToken (hi : Inv st) {inst : Instance}
    (hlock : inst.mutationLock = (st.inst t).mutationLock)
    (htoken : inst.token = (st.inst t).token) : Inv (st.setInst t inst) := by
  rw [inst_eq hi] at hlock htoken
  apply hi.setInst hlock
  intro token h
  rw [htoken] at h
  exact hi.coherent token h

theorem Inv.dropMutex (hi : Inv st) (mutex : Nat) : Inv (st.dropMutex t mutex) :=
  hi.keepToken rfl rfl

/-- An operation takes the mutation lock, with nothing committed yet. -/
theorem Inv.enter (hi : Inv st) (hfree : (st.inst t).mutationLock = none)
    (hplan : ∀ record, pc.plan record = record)
    (htask : TaskOk st.marks st.removedLast pc) :
    Inv ((st.setInst t { st.inst t with mutationLock := some t }).goto t pc) := by
  have hinst : ((st.setInst t { st.inst t with mutationLock := some t }).goto t pc).instances 0 =
      { st.inst t with mutationLock := some t } := instances_setInst (t := t) hi _
  rw [inst_eq hi] at hfree
  have htarget : target ((st.setInst t { st.inst t with mutationLock := some t }).goto t pc) =
      target st := by
    simp only [target, hinst, hfree, State.goto_pc, hplan]
    rfl
  refine ⟨?_, ?_, ?_, ?_, ?_, hi.overwrote⟩
  · exact (forall_update_iff (P := fun _ (task : Task) => task.inst = 0)).mpr
      ⟨hi.single t, fun u _ => hi.single u⟩
  · rw [hinst]
    have hmut := hi.mutation
    rw [hfree] at hmut
    exact hmut.enter
  · intro token h
    rw [hinst, inst_eq hi] at h
    rw [htarget]
    exact hi.coherent token h
  · intro hrem
    rw [htarget]
    exact hi.removed hrem
  · exact (forall_update_iff (P := fun _ (task : Task) =>
      TaskOk st.marks st.removedLast task.pc)).mpr ⟨htask, fun u _ => hi.tasks u⟩

/-- A step under the mutation lock that leaves the backend alone. -/
theorem Inv.within (hi : Inv st) (pc : Pc) (hin : (st.tasks t).pc.inMutation = true)
    (hpc : pc.inMutation = true)
    (htasks : st'.tasks = Function.update st.tasks t { st.tasks t with pc := pc })
    (hlock : (st'.instances 0).mutationLock = (st.instances 0).mutationLock)
    (hrecord : st'.record = st.record)
    (hmarks : st.marks.removals ≤ st'.marks.removals)
    (hremoved : st'.removedLast = true →
      st.removedLast = true ∨ st.marks.removals < st'.marks.removals)
    (hcoherent : ∀ token, (st'.instances 0).token = some token →
      (pc.plan st.record).map (·.grant) = some token.grant)
    (hnone : st'.removedLast = true → pc.plan st.record = none)
    (htask : TaskOk st'.marks st'.removedLast pc) (hover : st'.overwrote = false) : Inv st' := by
  have hself : (st'.tasks t).pc = pc := by rw [htasks, Function.update_self]
  have htarget : target st' = pc.plan st.record := by
    simp only [target, hlock, hi.mutation.holder_eq hin, hself, hrecord]
  refine ⟨?_, ?_, ?_, ?_, ?_, hover⟩
  · rw [htasks]
    exact (forall_update_iff (P := fun _ (task : Task) => task.inst = 0)).mpr
      ⟨hi.single t, fun u _ => hi.single u⟩
  · rw [hlock, htasks]
    exact hi.mutation.move (by simp [hpc, hin])
  · rw [htarget]
    exact hcoherent
  · rw [htarget]
    exact hnone
  · rw [htasks]
    exact (forall_update_iff (P := fun _ (task : Task) =>
      TaskOk st'.marks st'.removedLast task.pc)).mpr
      ⟨htask, fun u _ => (hi.tasks u).mono hmarks hremoved⟩

/-- An operation carries out what it has committed itself to and releases the
mutation lock. -/
theorem Inv.leave (hi : Inv st) (hin : (st.tasks t).pc.inMutation = true)
    (hpc : pc.inMutation = false) (htask : TaskOk st.marks st.removedLast pc)
    {record : Option PersistedToken} (hrecord : record = (st.tasks t).pc.plan st.record) :
    Inv { (st.dropMutation t).goto t pc with record := record } := by
  have hinst : ((st.dropMutation t).goto t pc).instances 0 =
      { st.inst t with mutationLock := none } := instances_setInst (t := t) hi _
  have htarget : target { (st.dropMutation t).goto t pc with record := record } = target st := by
    rw [target_of_inside hi hin, ← hrecord]
    simp only [target, hinst]
  refine ⟨?_, ?_, ?_, ?_, ?_, hi.overwrote⟩
  · exact (forall_update_iff (P := fun _ (task : Task) => task.inst = 0)).mpr
      ⟨hi.single t, fun u _ => hi.single u⟩
  · have hlock : (((st.dropMutation t).goto t pc).instances 0).mutationLock = none := by rw [hinst]
    show Guards (((st.dropMutation t).goto t pc).instances 0).mutationLock _ _
    rw [hlock]
    exact hi.mutation.leave hin (by simp [hpc])
  · intro token h
    have h : (((st.dropMutation t).goto t pc).instances 0).token = some token := h
    rw [hinst, inst_eq hi] at h
    rw [htarget]
    exact hi.coherent token h
  · intro hrem
    rw [htarget]
    exact hi.removed hrem
  · exact (forall_update_iff (P := fun _ (task : Task) =>
      TaskOk st.marks st.removedLast task.pc)).mpr ⟨htask, fun u _ => hi.tasks u⟩

theorem Inv.unremoved (hi : Inv st) : Inv { st with removedLast := false } :=
  ⟨hi.single, hi.mutation, hi.coherent, (fun h => by cases h),
    fun t => (hi.tasks t).mono (Nat.le_refl _) (fun h => by cases h), hi.overwrote⟩

/-- While memory has a token, a removal was not last. -/
theorem Inv.not_removed (hi : Inv st) {token : StoredToken}
    (h : (st.instances 0).token = some token) : st.removedLast = false := by
  cases hrem : st.removedLast with
  | false => rfl
  | true =>
    have hgrant := hi.coherent token h
    rw [hi.removed hrem] at hgrant
    cases hgrant

/-- The rest of an operation that has asked `get_token_raw`. A token it got is
in memory. -/
theorem Inv.afterRaw (hi : Inv st) {want : Want} {found : Option StoredToken}
    (hout : (st.tasks t).pc.inMutation = false)
    (hfound : ∀ token, found = some token → (st.instances 0).token = some token) :
    Inv (afterRaw st t want found) := by
  rcases afterRaw_cases st t want found with
    ⟨result, -, h⟩ | ⟨-, -, h⟩ | ⟨mutex, -, ⟨deadline, h⟩ | ⟨result, h⟩⟩ |
    ⟨r, -, ⟨token, refreshToken, hf, -, h⟩ | h⟩ | ⟨r, -, ⟨result, h⟩ | ⟨-, h⟩⟩ <;> rw [h]
  · exact hi.pass hout rfl rfl
  · exact hi.pass hout rfl rfl
  · exact hi.pass hout rfl rfl
  · exact (hi.dropMutex mutex).pass hout rfl rfl
  · -- The token is in memory, so a removal was not last when the refresh began.
    refine hi.goto hout rfl ⟨fun m hm => ?_, by simp⟩
    cases hm
    refine ⟨Nat.le_refl _, fun hrem => ?_⟩
    rw [hi.not_removed (hfound token hf)] at hrem
    cases hrem
  · exact hi.pass hout rfl rfl
  · exact hi.pass hout rfl rfl
  · exact (hi.dropMutex r.mutex).pass hout rfl rfl

theorem inst_token (hi : Inv st) : (st.inst t).token = (st.instances 0).token := by
  rw [inst_eq hi]

/-- The write-back of a token read from the backend. -/
theorem Inv.writeBack (hi : Inv st) {token : StoredToken}
    (h : (st.inst t).token.isSome || decide ((target st).map (·.grant) = some token.grant)) :
    Inv (st.setToken t (some ((st.inst t).token.getD token))) := by
  apply hi.setToken
  cases hm : (st.inst t).token with
  | some entry =>
    rw [inst_token hi] at hm
    exact hi.coherent entry hm
  | none => simpa [hm] using h

theorem Inv.storeMemory (hi : Inv st) {w : Writer} {token : StoredToken} {p : PersistedToken}
    (hpc : (st.tasks t).pc = .storeMemory w token p)
    (hg : orderly st (.run t .ok) = true) : Inv (storeMemorySection st t w token p) := by
  have hin : (st.tasks t).pc.inMutation = true := by rw [hpc]; rfl
  have htask := hi.tasks t
  have hgrant : p.grant = token.grant := htask.persisted w token p hpc
  have hinst : (st.setToken t (some token)).instances 0 = { st.inst t with token := some token } :=
    instances_setInst hi _
  have hlock : ((st.setToken t (some token)).instances 0).mutationLock =
      (st.instances 0).mutationLock := by rw [hinst, inst_eq hi]
  have hcoherent : ∀ token', ((st.setToken t (some token)).instances 0).token = some token' →
      ((Pc.storeBackend w p).plan st.record).map (·.grant) = some token'.grant := by
    intro token' h
    rw [hinst] at h
    cases h
    exact congrArg some hgrant
  cases w with
  | caller =>
    exact hi.within (.storeBackend .caller p) hin rfl rfl hlock rfl (Nat.le_refl _)
      (fun h => by cases h) hcoherent (fun h => by cases h)
      (.of_no_refresh rfl (by simp)) hi.overwrote
  | refresh r m =>
    -- Nothing came since the refresh token was read, so no removal was last.
    have hm : m = st.marks := by simpa [orderly, hpc] using hg
    have hrem : st.removedLast = false := by
      cases hr : st.removedLast with
      | false => rfl
      | true =>
        have hlt := (htask.seen m (by rw [hpc]; rfl)).2 hr
        rw [hm] at hlt
        exact absurd hlt (Nat.lt_irrefl _)
    refine hi.within (.storeBackend (.refresh r m) p) hin rfl rfl hlock rfl (Nat.le_refl _)
      (fun h => .inl h) hcoherent (fun h => ?_) (.of_no_refresh rfl (by simp)) ?_
    · rw [show st.removedLast = true from h] at hrem
      cases hrem
    · simp [storeMemorySection, hi.overwrote, hm]

theorem Inv.adoptLoad {mutex : Nat} {poll : Poll} (hi : Inv st)
    (hpc : (st.tasks t).pc = .adoptLoad mutex poll) (hr : runSection st t .ok = some st') :
    Inv st' := by
  have hout : (st.tasks t).pc.inMutation = false := by rw [hpc]; rfl
  simp only [runSection, hpc] at hr
  cases had : adoptable st with
  | some token =>
    simp only [had, Option.some.injEq] at hr
    subst hr
    exact hi.pass hout rfl rfl
  | none =>
    cases poll with
    | waiting deadline =>
      simp only [had] at hr
      split at hr <;> cases hr <;> exact hi.pass hout rfl rfl
    | last holding =>
      simp only [had, Option.some.injEq] at hr
      subst hr
      exact (hi.pass hout rfl rfl).unremoved

theorem Inv.storeLock {w : Writer} {token : StoredToken} (hi : Inv st)
    (hpc : (st.tasks t).pc = .storeLock w token) (hr : runSection st t .ok = some st') :
    Inv st' := by
  simp only [runSection, hpc] at hr
  cases hfree : (st.inst t).mutationLock with
  | some u => simp [hfree] at hr
  | none =>
    simp only [hfree, Option.some.injEq] at hr
    subst hr
    refine hi.enter hfree (fun _ => rfl) ⟨fun m hm => ?_, ?_⟩
    · cases w with
      | caller => cases hm
      | refresh r m' => exact (hi.tasks t).seen m (by rw [hpc]; exact hm)
    · rintro w' token' p h
      cases h
      rfl

/-- From here on the removal counts as begun, and what the backend is about to
hold is nothing. -/
theorem Inv.removeMemory (hi : Inv st) (hpc : (st.tasks t).pc = .removeMemory)
    (hr : runSection st t .ok = some st') : Inv st' := by
  have hin : (st.tasks t).pc.inMutation = true := by rw [hpc]; rfl
  have hinst : (st.setToken t none).instances 0 = { st.inst t with token := none } :=
    instances_setInst hi _
  simp only [runSection, hpc, Option.some.injEq] at hr
  subst hr
  refine hi.within .removeRefreshLock hin rfl rfl ?_ rfl (Nat.le_succ _)
    (fun _ => .inr (Nat.lt_succ_self _)) ?_ (fun _ => rfl) (.of_no_refresh rfl (by simp))
    hi.overwrote
  · show ((st.setToken t none).instances 0).mutationLock = _
    rw [hinst, inst_eq hi]
  · intro token h
    have h : ((st.setToken t none).instances 0).token = some token := h
    rw [hinst] at h
    cases h

/-- The holder of the mutation lock is done with a section of memory and has
nothing left to do but to delete the record. -/
theorem Inv.toDelete (hi : Inv st) (hin : (st.tasks t).pc.inMutation = true)
    (hpc : pc.inMutation = true) (hplan : pc.plan st.record = none)
    (hseen : Coherence.seen pc = none) (hp : ∀ w token p, pc ≠ .storeMemory w token p)
    {inst : Instance} (hlock : inst.mutationLock = (st.inst t).mutationLock)
    (htoken : inst.token = none) : Inv ((st.setInst t inst).goto t pc) := by
  have hinst : (st.setInst t inst).instances 0 = inst := instances_setInst hi inst
  refine hi.within pc hin hpc rfl ?_ rfl (Nat.le_refl _) (fun h => .inl h) ?_ (fun _ => hplan)
    (.of_no_refresh hseen fun w token p h => absurd h (hp w token p)) hi.overwrote
  · show ((st.setInst t inst).instances 0).mutationLock = _
    rw [hinst, hlock, inst_eq hi]
  · intro token h
    have h : ((st.setInst t inst).instances 0).token = some token := h
    rw [hinst, htoken] at h
    cases h

theorem Inv.removeRefreshLock (hi : Inv st) (hpc : (st.tasks t).pc = .removeRefreshLock)
    (hr : runSection st t .ok = some st') : Inv st' := by
  have hin : (st.tasks t).pc.inMutation = true := by rw [hpc]; rfl
  have htarget : target st = none := by
    rw [target_of_inside hi hin, hpc]
    rfl
  -- Memory was emptied before, since the backend is about to hold nothing.
  have hempty : (st.inst t).token = none := by
    cases h : (st.inst t).token with
    | none => rfl
    | some token =>
      have hgrant := hi.coherent token (by rw [← inst_eq hi (t := t)]; exact h)
      rw [htarget] at hgrant
      cases hgrant
  simp only [runSection, hpc, Option.some.injEq] at hr
  subst hr
  exact hi.toDelete hin rfl rfl rfl (by simp) rfl hempty

theorem Inv.purgeScan (hi : Inv st) (hpc : (st.tasks t).pc = .purgeScan)
    (hr : runSection st t .ok = some st') : Inv st' := by
  have hin : (st.tasks t).pc.inMutation = true := by rw [hpc]; rfl
  have htarget : target st = st.record := by
    rw [target_of_inside hi hin, hpc]
    rfl
  simp only [runSection, hpc] at hr
  split at hr <;> cases hr
  · refine hi.within .purgeMemory hin rfl rfl rfl rfl (Nat.le_refl _)
      (fun h => .inl h) ?_ ?_ (.of_no_refresh rfl (by simp)) hi.overwrote
    · intro token h
      rw [← htarget]
      exact hi.coherent token h
    · intro h
      rw [← htarget]
      exact hi.removed h
  · exact hi.leave hin rfl (.of_no_refresh rfl (by simp)) (by rw [hpc]; rfl)

theorem Inv.purgeMemory (hi : Inv st) (hpc : (st.tasks t).pc = .purgeMemory)
    (hr : runSection st t .ok = some st') : Inv st' := by
  have hin : (st.tasks t).pc.inMutation = true := by rw [hpc]; rfl
  simp only [runSection, hpc, Option.some.injEq] at hr
  subst hr
  exact hi.toDelete hin rfl rfl rfl (by simp) rfl rfl

theorem Inv.run {answer : Answer} (hi : Inv st) (hs : oneInstance st (.run t answer) = true)
    (hg : orderly st (.run t answer) = true) (hr : runSection st t answer = some st') :
    Inv st' := by
  have hok : answer = .ok := by simpa [oneInstance] using hs
  subst hok
  have htask := hi.tasks t
  cases hpc : (st.tasks t).pc with
  | idle | panicked => simp [runSection, hpc] at hr
  | awaitReply r refreshToken m => simp [runSection, hpc] at hr
  | done result => simp [runSection, hpc] at hr
  | rawRead want =>
    have hout : (st.tasks t).pc.inMutation = false := by rw [hpc]; rfl
    simp only [runSection, hpc] at hr
    cases hm : (st.inst t).token with
    | some token =>
      simp only [hm, Option.some.injEq] at hr
      subst hr
      refine hi.afterRaw hout ?_
      rintro token' h
      cases h
      rw [← inst_token hi (t := t), hm]
    | none =>
      simp only [hm, Option.some.injEq] at hr
      subst hr
      exact hi.pass hout rfl rfl
  | rawLoad want =>
    have hout : (st.tasks t).pc.inMutation = false := by rw [hpc]; rfl
    simp only [runSection, hpc] at hr
    cases hrec : st.record with
    | some p =>
      simp only [hrec, Option.some.injEq] at hr
      subst hr
      exact hi.pass hout rfl rfl
    | none =>
      simp only [hrec, Option.some.injEq] at hr
      subst hr
      exact hi.afterRaw hout (by simp)
  | rawWriteBack want token =>
    have hout : (st.tasks t).pc.inMutation = false := by rw [hpc]; rfl
    have hentry := hi.writeBack (t := t) (by simpa [orderly, hpc] using hg)
    simp only [runSection, hpc, Option.some.injEq] at hr
    subst hr
    refine hentry.afterRaw hout ?_
    intro token' h
    rw [State.setToken, instances_setInst hi]
    exact h
  | getRefreshLock =>
    have hout : (st.tasks t).pc.inMutation = false := by rw [hpc]; rfl
    simp only [runSection, hpc] at hr
    split at hr <;> cases hr
    · exact hi.pass hout rfl rfl
    · exact Inv.pass (hi.keepToken rfl rfl) hout rfl rfl
  | awaitRefreshLock mutex =>
    have hout : (st.tasks t).pc.inMutation = false := by rw [hpc]; rfl
    simp only [runSection, hpc] at hr
    split at hr <;> cases hr
    exact Inv.pass (hi.keepToken rfl rfl) hout rfl rfl
  | tryLock mutex deadline =>
    have hout : (st.tasks t).pc.inMutation = false := by rw [hpc]; rfl
    simp only [runSection, hpc] at hr
    split at hr <;> cases hr
    · have h : Inv (st.goto t (.adoptLoad mutex (.last true))) :=
        hi.pass hout rfl rfl
      exact ⟨h.single, h.mutation, h.coherent, h.removed, h.tasks, h.overwrote⟩
    · exact hi.pass hout rfl rfl
  | adoptLoad mutex poll => exact hi.adoptLoad hpc hr
  | adoptWrite mutex poll token =>
    have hout : (st.tasks t).pc.inMutation = false := by rw [hpc]; rfl
    have hentry : Inv (st.setToken t (some token)) :=
      hi.setToken (by simpa [orderly, hpc] using hg)
    cases poll with
    | waiting deadline =>
      simp only [runSection, hpc, Option.some.injEq] at hr
      subst hr
      exact (hentry.dropMutex mutex).pass hout rfl rfl
    | last holding =>
      simp only [runSection, hpc, Option.some.injEq] at hr
      subst hr
      exact hentry.pass hout rfl rfl
  | send r refreshToken m =>
    have hout : (st.tasks t).pc.inMutation = false := by rw [hpc]; rfl
    simp only [runSection, hpc] at hr
    split at hr <;> cases hr
    · have h : Inv (st.goto t (.awaitReply r refreshToken m)) := hi.goto hout rfl
        ⟨fun m' hm' => htask.seen m' (by rw [hpc]; exact hm'), by simp⟩
      exact ⟨h.single, h.mutation, h.coherent, h.removed, h.tasks, h.overwrote⟩
    · exact hi.pass hout rfl rfl
  | storeLock w token => exact hi.storeLock hpc hr
  | storeMemory w token p =>
    simp only [runSection, hpc, Option.some.injEq] at hr
    subst hr
    exact hi.storeMemory hpc hg
  | storeBackend w p =>
    have hin : (st.tasks t).pc.inMutation = true := by rw [hpc]; rfl
    simp only [runSection, hpc, Option.some.injEq] at hr
    subst hr
    refine hi.leave hin ?_ ?_ (by rw [hpc]; rfl)
    · cases w <;> rfl
    · cases w <;> exact .of_no_refresh rfl (by simp)
  | releaseDist r result =>
    have hout : (st.tasks t).pc.inMutation = false := by rw [hpc]; rfl
    simp only [runSection, hpc, Option.some.injEq] at hr
    subst hr
    have h : Inv ((st.dropMutex t r.mutex).goto t (.done result)) :=
      (hi.dropMutex r.mutex).pass hout rfl rfl
    exact ⟨h.single, h.mutation, h.coherent, h.removed, h.tasks, h.overwrote⟩
  | removeLock | purgeLock =>
    simp only [runSection, hpc] at hr
    cases hfree : (st.inst t).mutationLock with
    | some u => simp [hfree] at hr
    | none =>
      simp only [hfree, Option.some.injEq] at hr
      subst hr
      exact hi.enter hfree (fun _ => rfl) (.of_no_refresh rfl (by simp))
  | removeMemory => exact hi.removeMemory hpc hr
  | removeRefreshLock => exact hi.removeRefreshLock hpc hr
  | removeBackend | purgeBackend =>
    have hin : (st.tasks t).pc.inMutation = true := by rw [hpc]; rfl
    simp only [runSection, hpc, Option.some.injEq] at hr
    subst hr
    exact hi.leave hin rfl (.of_no_refresh rfl (by simp)) (by rw [hpc]; rfl)
  | purgeScan => exact hi.purgeScan hpc hr
  | purgeMemory => exact hi.purgeMemory hpc hr

theorem Inv.reply {response : Option TokenResponse} (hi : Inv st)
    (hr : replySection st t response = some st') : Inv st' := by
  obtain ⟨r, refreshToken, m, hpc, ⟨newToken, -, rfl⟩ | ⟨-, rfl⟩⟩ := reply_cases hr
  · have htask := hi.tasks t
    have h : Inv (st.goto t (.storeLock (.refresh r m) newToken)) :=
      hi.goto (by rw [hpc]; rfl) rfl ⟨fun m' hm' => htask.seen m' (by rw [hpc]; exact hm'), by simp⟩
    exact ⟨h.single, h.mutation, h.coherent, h.removed, h.tasks, h.overwrote⟩
  · have h : Inv (st.goto t (.releaseDist r none)) := hi.pass (by rw [hpc]; rfl) rfl rfl
    exact ⟨h.single, h.mutation, h.coherent, h.removed, h.tasks, h.overwrote⟩

theorem Inv.step {l : Label} (hi : Inv st) (hs : oneInstance st l = true)
    (hg : orderly st l = true) (hst : step st l = some st') : Inv st' := by
  cases l with
  | tick d unix =>
    cases hst
    exact ⟨hi.single, hi.mutation, hi.coherent, hi.removed, hi.tasks, hi.overwrote⟩
  | call t inst op =>
    have hzero : inst = 0 := by simpa [oneInstance] using hs
    simp only [TokenProtocol.step] at hst
    split at hst
    · rename_i hpc
      cases hst
      have hout : (st.tasks t).pc.inMutation = false := by rw [hpc]; rfl
      have h : Inv (st.goto t op.start) :=
        hi.pass hout (by cases op <;> rfl) (by cases op <;> rfl)
      have hinst : (st.tasks t).inst = inst := by rw [hi.single t, hzero]
      subst hinst
      exact h
    · cases hst
  | run t answer => exact hi.run hs hg hst
  | reply t response => exact hi.reply hst
  | lapse => cases hs

theorem inv_init (clock : Clock) (refreshConfig : Bool) (record : Option PersistedToken)
    (cached : Nat → Bool) : Inv (init clock refreshConfig record cached) := by
  refine ⟨fun _ => rfl, fun t => ?_, ?_, fun h => ?_, fun t => ?_, rfl⟩
  · simp [init, idleTask, Pc.inMutation]
  · intro token h
    simp only [init] at h
    split at h
    · obtain ⟨p, rfl, rfl⟩ := Option.map_eq_some_iff.mp h
      rfl
    · cases h
  · cases h
  · exact .of_no_refresh rfl (by simp [init, idleTask])

/-- What the backend does for an operation that has committed itself. -/
theorem Inv.carryOut (hi : Inv st) (hin : (st.tasks t).pc.inMutation = true)
    {record : Option PersistedToken}
    (hplan : (st.tasks t).pc.plan record = (st.tasks t).pc.plan st.record) :
    Inv { st with record := record } := by
  have htarget : target { st with record := record } = target st := by
    rw [target_of_inside hi hin, ← hplan]
    simp only [target, hi.mutation.holder_eq hin]
  refine ⟨hi.single, hi.mutation, ?_, ?_, hi.tasks, hi.overwrote⟩
  · rw [htarget]
    exact hi.coherent
  · rw [htarget]
    exact hi.removed

/-- What other sessions do. They change nothing of this one but who holds the
mutation lock, and that only while no operation on this one is in a section it
protects. -/
theorem Inv.elsewhere (hi : Inv st) (htasks : ∀ u, st'.tasks u = st.tasks u)
    (hrecord : st'.record = st.record)
    (htoken : (st'.instances 0).token = (st.instances 0).token)
    (hmarks : st'.marks = st.marks) (hremoved : st'.removedLast = st.removedLast)
    (hover : st'.overwrote = st.overwrote)
    (hlock : (st'.instances 0).mutationLock = (st.instances 0).mutationLock ∨
      ∀ u, (st.tasks u).pc.inMutation = false) : Inv st' := by
  have htarget : target st' = target st := by
    simp only [target, hrecord, htasks]
    rcases hlock with hlock | hout
    · rw [hlock]
    · have hfree : ∀ lock : Option Nat, (match lock with
          | some u => (st.tasks u).pc.plan st.record
          | none => st.record) = st.record := by
        rintro (_ | u)
        · rfl
        · exact plan_of_outside (hout u) st.record
      rw [hfree, hfree]
  rw [← funext_iff] at htasks
  refine ⟨?_, ?_, ?_, ?_, ?_, ?_⟩
  · rw [htasks]
    exact hi.single
  · rw [htasks]
    rcases hlock with hlock | hout
    · rw [hlock]
      exact hi.mutation
    · exact .of_outside fun u => by simp [hout u]
  · rw [htoken, htarget]
    exact hi.coherent
  · rw [hremoved, htarget]
    exact hi.removed
  · rw [htasks, hmarks, hremoved]
    exact hi.tasks
  · rw [hover]
    exact hi.overwrote

/-- **Coherence of one session.** When all operations have completed, a token in
memory has the grant of the persisted record, and a session whose removal was
last is in neither. -/
theorem Inv.settled (hi : Inv st) (hquiet : Quiet st) :
    (∀ token, (st.instances 0).token = some token →
      ∃ p, st.record = some p ∧ p.grant = token.grant) ∧
    (st.removedLast = true → (st.instances 0).token = none ∧ st.record = none) := by
  have htarget : target st = st.record := by
    unfold target
    split
    · rename_i u hu
      have hq := hquiet u
      cases hpc : (st.tasks u).pc <;> simp [hpc] at hq <;> rfl
    · rfl
  refine ⟨fun token htoken => ?_, fun hrem => ⟨?_, ?_⟩⟩
  · have hgrant := hi.coherent token htoken
    rw [htarget] at hgrant
    exact Option.map_eq_some_iff.mp hgrant
  · cases htoken : (st.instances 0).token with
    | none => rfl
    | some token =>
      rw [hi.not_removed htoken] at hrem
      cases hrem
  · rw [← htarget]
    exact hi.removed hrem

end Coherence
end TokenProtocol
end McpFramework
