import McpFramework.Auth.TokenProtocol

/-!
# Auth — TokenDeployment

The token store's operations where the store has a persistence backend and where
it has none, and `refresh_token` called by itself.

Without a backend the same sections run. What they ask of a backend comes out as
if it failed: nothing is loaded, stored or deleted. Only
`refresh_with_distributed_lock` goes another way, straight to `do_refresh`.
-/

namespace McpFramework.TokenProtocol

open Lib

inductive Move where
  | step (l : Label)
  /-- `refresh_token` is called, not by `get_token`. -/
  | refresh (t inst : Nat)

/-- Task `t` runs its next section on a store without a backend. -/
def unbackedSection (st : State) (t : Nat) : Option State :=
  match (st.tasks t).pc with
  | .tryLock mutex _ =>
    some { st.goto t (.rawRead (.submit ⟨mutex, false⟩)) with removedLast := false }
  | _ => runSection st t .err

/-- Outside `get_token` no per-session mutex is held; the one the refresh carries
here is in no table, so nobody waits for it. -/
def callRefresh (st : State) (t inst : Nat) : Option State :=
  match (st.tasks t).pc with
  | .idle =>
    let entry := st.instances inst
    some { st.setTask t { inst := inst, pc := .rawRead (.submit ⟨entry.nextMutex, false⟩) } with
      instances := Function.update st.instances inst
        { entry with
          mutexes := Function.update entry.mutexes entry.nextMutex (some t)
          nextMutex := entry.nextMutex + 1 }
      removedLast := false }
  | _ => none

def move (persistence : Bool) (st : State) : Move → Option State
  | .step (.run t answer) => if persistence then runSection st t answer else unbackedSection st t
  | .step l => step st l
  | .refresh t inst => callRefresh st t inst

def deployed (persistence : Bool) : System State Move := ⟨move persistence⟩

section Frame

variable {persistence : Bool} {st st' : State} {t : Nat}

/-- A section of either kind is one of the backend's, but for the refresh that
does not ask for the distributed lock. -/
theorem move_run_cases {answer : Answer}
    (h : move persistence st (.step (.run t answer)) = some st') :
    (∃ answer', runSection st t answer' = some st') ∨
      ∃ mutex deadline, (st.tasks t).pc = .tryLock mutex deadline ∧
        st' = { st.goto t (.rawRead (.submit ⟨mutex, false⟩)) with removedLast := false } := by
  cases persistence with
  | true => exact .inl ⟨answer, h⟩
  | false =>
    simp only [move, Bool.false_eq_true, if_false, unbackedSection] at h
    split at h
    · rename_i mutex deadline hpc
      exact .inr ⟨mutex, deadline, hpc, (Option.some.inj h).symm⟩
    · exact .inl ⟨.err, h⟩

theorem move_run_local {answer : Answer}
    (h : move persistence st (.step (.run t answer)) = some st') : Local st st' t := by
  rcases move_run_cases h with ⟨answer', hr⟩ | ⟨mutex, deadline, hpc, rfl⟩
  · exact runSection_local hr
  · have hgoto : Local st (st.goto t (.rawRead (.submit ⟨mutex, false⟩))) t :=
      .goto (by rw [hpc]; rfl)
    exact { hgoto with }

theorem callRefresh_cases {inst : Nat} (h : callRefresh st t inst = some st') :
    (st.tasks t).pc = .idle ∧
      st' = { st.setTask t
                { inst := inst, pc := .rawRead (.submit ⟨(st.instances inst).nextMutex, false⟩) } with
        instances := Function.update st.instances inst
          { st.instances inst with
            mutexes := Function.update (st.instances inst).mutexes
              (st.instances inst).nextMutex (some t)
            nextMutex := (st.instances inst).nextMutex + 1 }
        removedLast := false } := by
  unfold callRefresh at h
  split at h
  · rename_i hpc
    exact ⟨hpc, (Option.some.inj h).symm⟩
  · cases h

theorem step_call_cases {inst : Nat} {op : Op} (h : step st (.call t inst op) = some st') :
    (st.tasks t).pc = .idle ∧ st' = st.setTask t { inst := inst, pc := op.start } := by
  simp only [step] at h
  split at h
  · rename_i hpc
    exact ⟨hpc, (Option.some.inj h).symm⟩
  · cases h

/-! ## The mutation lock of every instance -/

/-- On each instance, who is under the mutation lock holds it. -/
def MutationGuards (st : State) : Prop :=
  ∀ i, Guards (st.instances i).mutationLock
    (fun task : Task => task.inst = i ∧ task.pc.inMutation = true) st.tasks

theorem Local.tasks_eq (h : Local st st' t) :
    st'.tasks = Function.update st.tasks t (st'.tasks t) := by
  funext u
  by_cases hu : u = t
  · rw [hu, Function.update_self]
  · rw [h.tasks u hu, Function.update_of_ne hu]

theorem MutationGuards.local (hg : MutationGuards st) (h : Local st st' t) :
    MutationGuards st' := by
  intro i
  rw [h.tasks_eq]
  by_cases hi : i = (st.tasks t).inst
  · subst hi
    refine (hg _).step (h.mutation.congr ?_ ?_)
    · simp
    · simp [h.sameInst]
  · rw [h.instances i hi]
    exact (hg i).step (.stay (by simp [h.sameInst, Ne.symm hi]))

/-- A task that was idle starts outside the mutation lock. -/
theorem MutationGuards.begin (hg : MutationGuards st) {task : Task}
    (hpc : task.pc.inMutation = false)
    (htasks : st'.tasks = Function.update st.tasks t task)
    (hlock : ∀ i, (st'.instances i).mutationLock = (st.instances i).mutationLock) :
    MutationGuards st' := by
  intro i
  rw [hlock, htasks]
  exact (hg i).depart (by simp [hpc])

end Frame

end McpFramework.TokenProtocol
