import McpFramework.Auth.TokenDeployment

/-!
# Auth — ReadBack

When `refresh_token` reads back what it has just stored, and when its
`expect("just stored")` panics.

`store_token` releases the mutation lock before `refresh_token` reads the entry
again. In between `remove_token` and `purge_expired` may take the entry out of
memory: the read-back then asks the backend, and finds nothing there if there is
none, if the record is gone too or if the backend fails.
-/

namespace McpFramework.TokenProtocol

open Lib

/-! ## The runs -/

/-- The session's entry is taken out of the instance's memory. -/
def Pc.clears : Pc → Bool
  | .removeMemory => true
  | .purgeMemory => true
  | _ => false

/-- A refresh has stored its result and has not read it back yet. -/
def Pc.readingBack : Pc → Bool
  | .rawRead (.stored _) => true
  | _ => false

/-- No entry is taken out of an instance's memory while a refresh there is about
to read it back. -/
def Spares (st : State) : Move → Prop
  | .step (.run t _) => (st.tasks t).pc.clears = true →
      ∀ u, (st.tasks u).inst = (st.tasks t).inst → (st.tasks u).pc.readingBack = false
  | _ => True

namespace ReadBack

/-- The operation relies on the entry a refresh has put into memory. -/
def relies : Pc → Bool
  | .storeBackend (.refresh _ _) _ => true
  | .rawRead (.stored _) => true
  | _ => false

/-- The read-back has not found the entry in memory. -/
def lost : Pc → Bool
  | .rawLoad (.stored _) => true
  | .rawWriteBack (.stored _) _ => true
  | .panicked => true
  | _ => false

variable {pc : Pc}

theorem clears_cases (h : pc.clears = true) : pc = .removeMemory ∨ pc = .purgeMemory := by
  cases pc <;> first | exact .inl rfl | exact .inr rfl | cases h

theorem readingBack_cases (h : pc.readingBack = true) : ∃ r, pc = .rawRead (.stored r) := by
  cases pc with
  | rawRead want =>
    cases want with
    | stored r => exact ⟨r, rfl⟩
    | _ => cases h
  | _ => cases h

/-- Who relies on the entry is under the mutation lock or reading it back. -/
theorem relies_cases (h : relies pc = true) : pc.inMutation = true ∨ pc.readingBack = true := by
  cases pc with
  | rawRead want =>
    cases want with
    | stored r => exact .inr rfl
    | _ => cases h
  | storeBackend writer persisted => exact .inl rfl
  | _ => cases h

structure Inv (st : State) : Prop where
  mutation : MutationGuards st
  relies : ∀ t, relies (st.tasks t).pc = true → (st.inst t).token.isSome = true
  found : ∀ t, lost (st.tasks t).pc = false

variable {persistence : Bool} {st st' : State} {t : Nat} {want : Want}

/-! ## One section -/

/-- What a section does to its instance's entry and where it leads. -/
structure Effect (st st' : State) (t : Nat) : Prop where
  keeps : (st.tasks t).pc.clears = false → (st.inst t).token.isSome = true →
    (st'.instances (st.tasks t).inst).token.isSome = true
  relies : relies (st'.tasks t).pc = true →
    (st'.instances (st.tasks t).inst).token.isSome = true
  found : lost (st'.tasks t).pc = false

/-- The entry stays as it is. -/
theorem Effect.goto (hpc : lost pc = false)
    (hrel : ReadBack.relies pc = true → (st.inst t).token.isSome = true) :
    Effect st (st.goto t pc) t :=
  ⟨fun _ h => h, by rw [State.goto_pc]; exact hrel, by rw [State.goto_pc]; exact hpc⟩

theorem Effect.away (hpc : lost pc = false) (hrel : ReadBack.relies pc = false) :
    Effect st (st.goto t pc) t :=
  .goto hpc fun h => by rw [hrel] at h; cases h

/-- A change of the instance that leaves its entry alone goes before. -/
theorem Effect.afterInst {inst : Instance} (h : Effect (st.setInst t inst) st' t)
    (htoken : inst.token = (st.inst t).token) : Effect st st' t := by
  refine ⟨fun hclears hsome => h.keeps hclears ?_, h.relies, h.found⟩
  rw [State.inst, State.setInst_instances, State.setInst, Function.update_self, htoken]
  exact hsome

/-- An entry is put into memory before. -/
theorem Effect.afterToken {token : StoredToken}
    (h : Effect (st.setToken t (some token)) st' t) (hclears : (st.tasks t).pc.clears = false) :
    Effect st st' t := by
  refine ⟨fun _ _ => h.keeps hclears ?_, h.relies, h.found⟩
  rw [State.inst, State.setToken, State.setInst_instances, State.setInst, Function.update_self]
  rfl

/-- The entry is taken out, and nobody relies on it here. -/
theorem Effect.cleared (hclears : (st.tasks t).pc.clears = true) (hpc : lost (st'.tasks t).pc = false)
    (hrel : ReadBack.relies (st'.tasks t).pc = false) : Effect st st' t :=
  ⟨fun h => (by rw [hclears] at h; cases h), fun h => (by rw [hrel] at h; cases h), hpc⟩

/-- `get_token_raw` panics nobody who has found a token or reads nothing back. -/
theorem afterRaw_effect {found : Option StoredToken}
    (h : (∀ r, want ≠ .stored r) ∨ found.isSome = true) : Effect st (afterRaw st t want found) t := by
  rcases afterRaw_cases st t want found with
    ⟨result, -, heq⟩ | ⟨-, -, heq⟩ | ⟨mutex, -, ⟨deadline, heq⟩ | ⟨result, heq⟩⟩ |
    ⟨r, -, ⟨token, refreshToken, -, -, heq⟩ | heq⟩ | ⟨r, hwant, ⟨result, heq⟩ | ⟨hnone, -⟩⟩
  · rw [heq]
    exact .away rfl rfl
  · rw [heq]
    exact .away rfl rfl
  · rw [heq]
    exact .away rfl rfl
  · rw [heq]
    exact .afterInst (.away rfl rfl) rfl
  · rw [heq]
    exact .away rfl rfl
  · rw [heq]
    exact .away rfl rfl
  · rw [heq]
    exact .away rfl rfl
  · rcases h with h | h
    · exact absurd hwant (h r)
    · rw [hnone] at h
      cases h

theorem runSection_effect {answer : Answer}
    (hrel : relies (st.tasks t).pc = true → (st.inst t).token.isSome = true)
    (hfound : lost (st.tasks t).pc = false) (h : runSection st t answer = some st') :
    Effect st st' t := by
  cases hpc : (st.tasks t).pc with
  | idle => simp [runSection, hpc] at h
  | awaitReply r refreshToken seen => simp [runSection, hpc] at h
  | done result => simp [runSection, hpc] at h
  | panicked => simp [runSection, hpc] at h
  | rawRead want =>
    simp only [runSection, hpc] at h
    split at h <;> cases h
    · exact afterRaw_effect (.inr rfl)
    · -- Who reads back has the entry in memory.
      rename_i hnone
      cases want with
      | stored r =>
        rw [hpc, hnone] at hrel
        cases hrel rfl
      | _ => exact .away rfl rfl
  | rawLoad want =>
    have hwant : ∀ r, want ≠ .stored r := by
      rintro r rfl
      rw [hpc] at hfound
      cases hfound
    simp only [runSection, hpc] at h
    split at h <;> cases h
    · refine .away ?_ rfl
      cases want <;> first | rfl | exact absurd rfl (hwant _)
    · exact afterRaw_effect (.inl hwant)
  | rawWriteBack want token =>
    simp only [runSection, hpc, Option.some.injEq] at h
    subst h
    exact .afterToken (afterRaw_effect (.inr rfl)) (by rw [hpc]; rfl)
  | getRefreshLock | purgeScan =>
    simp only [runSection, hpc] at h
    split at h <;> cases h
    · exact .away rfl rfl
    · exact .afterInst (.away rfl rfl) rfl
  | awaitRefreshLock mutex =>
    simp only [runSection, hpc] at h
    split at h <;> cases h
    exact .afterInst (.away rfl rfl) rfl
  | tryLock mutex deadline =>
    simp only [runSection, hpc] at h
    split at h
    · cases h
      exact .away rfl rfl
    · split at h <;> cases h
      · have hgoto : Effect st (st.goto t (.adoptLoad mutex (.last true))) t := .away rfl rfl
        exact { hgoto with }
      · exact .away rfl rfl
  | adoptLoad mutex poll =>
    simp only [runSection, hpc] at h
    split at h
    · cases h
      exact .away rfl rfl
    · cases poll with
      | waiting deadline =>
        simp only at h
        split at h <;> cases h <;> exact .away rfl rfl
      | last holding =>
        cases h
        have hgoto : Effect st (st.goto t (.rawRead (.submit ⟨mutex, holding⟩))) t := .away rfl rfl
        exact { hgoto with }
  | adoptWrite mutex poll token =>
    cases poll with
    | waiting deadline =>
      simp only [runSection, hpc, Option.some.injEq] at h
      subst h
      exact .afterToken (.afterInst (.away rfl rfl) rfl) (by rw [hpc]; rfl)
    | last holding =>
      simp only [runSection, hpc, Option.some.injEq] at h
      subst h
      exact .afterToken (.away rfl rfl) (by rw [hpc]; rfl)
  | send r refreshToken seen =>
    simp only [runSection, hpc] at h
    split at h <;> cases h
    · have hgoto : Effect st (st.goto t (.awaitReply r refreshToken seen)) t := .away rfl rfl
      exact { hgoto with }
    · exact .away rfl rfl
  | storeLock writer token =>
    simp only [runSection, hpc] at h
    split at h <;> cases h
    exact .afterInst (.away rfl rfl) rfl
  | storeMemory writer token persisted =>
    simp only [runSection, hpc, Option.some.injEq] at h
    subst h
    have hstored : Effect st ((st.setToken t (some token)).goto t
        (.storeBackend writer persisted)) t := by
      refine .afterToken (.goto rfl fun _ => ?_) (by rw [hpc]; rfl)
      rw [State.inst, State.setToken, State.setInst_instances, State.setInst, Function.update_self]
      rfl
    cases writer <;> exact { hstored with }
  | storeBackend writer persisted =>
    simp only [runSection, hpc] at h
    cases writer with
    | caller =>
      have hleave : Effect st ((st.dropMutation t).goto t (.done none)) t :=
        .afterInst (.away rfl rfl) rfl
      cases answer <;> cases h <;> exact { hleave with }
    | refresh r seen =>
      have hsome := hrel (by rw [hpc]; rfl)
      have hleave : Effect st ((st.dropMutation t).goto t (.rawRead (.stored r))) t := by
        refine .afterInst (.goto rfl fun _ => ?_) rfl
        rw [State.inst, State.setInst_instances, State.setInst, Function.update_self]
        exact hsome
      cases answer <;> cases h <;> exact { hleave with }
  | releaseDist r result =>
    simp only [runSection, hpc, Option.some.injEq] at h
    subst h
    have hdrop : Effect st ((st.dropMutex t r.mutex).goto t (.done result)) t :=
      .afterInst (.away rfl rfl) rfl
    exact { hdrop with }
  | removeLock | purgeLock =>
    simp only [runSection, hpc] at h
    split at h <;> cases h
    exact .afterInst (.away rfl rfl) rfl
  | removeMemory =>
    simp only [runSection, hpc, Option.some.injEq] at h
    subst h
    refine .cleared (by rw [hpc]; rfl) ?_ ?_
    · show lost (((st.setToken t none).goto t .removeRefreshLock).tasks t).pc = false
      rw [State.goto_pc]
      rfl
    · show relies (((st.setToken t none).goto t .removeRefreshLock).tasks t).pc = false
      rw [State.goto_pc]
      rfl
  | removeRefreshLock =>
    simp only [runSection, hpc, Option.some.injEq] at h
    subst h
    exact .afterInst (.away rfl rfl) rfl
  | removeBackend | purgeBackend =>
    simp only [runSection, hpc] at h
    have hleave : Effect st ((st.dropMutation t).goto t (.done none)) t :=
      .afterInst (.away rfl rfl) rfl
    cases answer <;> cases h <;> exact { hleave with }
  | purgeMemory =>
    simp only [runSection, hpc, Option.some.injEq] at h
    subst h
    refine .cleared (by rw [hpc]; rfl) ?_ ?_ <;> rw [State.goto_pc] <;> rfl

theorem replySection_effect {response : Option TokenResponse}
    (h : replySection st t response = some st') : Effect st st' t := by
  obtain ⟨r, refreshToken, seen, -, ⟨newToken, -, rfl⟩ | ⟨-, rfl⟩⟩ := reply_cases h
  · have hgoto : Effect st (st.goto t (.storeLock (.refresh r seen) newToken)) t := .away rfl rfl
    exact { hgoto with }
  · have hgoto : Effect st (st.goto t (.releaseDist r none)) t := .away rfl rfl
    exact { hgoto with }

/-! ## Runs -/

/-- A section spares the entries that refreshes rely on: one that takes the entry
out has the mutation lock, so no refresh is storing, and none is reading back. -/
theorem Inv.local (hi : Inv st) (hl : Local st st' t) (he : Effect st st' t)
    (hg : (st.tasks t).pc.clears = true →
      ∀ u, (st.tasks u).inst = (st.tasks t).inst → (st.tasks u).pc.readingBack = false) :
    Inv st' := by
  refine ⟨hi.mutation.local hl, fun u hrel => ?_, fun u => ?_⟩
  · by_cases hu : u = t
    · subst hu
      rw [State.inst, hl.sameInst]
      exact he.relies hrel
    · rw [hl.tasks u hu] at hrel
      have hsome := hi.relies u hrel
      rw [State.inst, hl.tasks u hu]
      by_cases hinst : (st.tasks u).inst = (st.tasks t).inst
      · cases hclears : (st.tasks t).pc.clears with
        | false =>
          rw [hinst]
          exact he.keeps hclears (by rw [State.inst, ← hinst]; exact hsome)
        | true =>
          have hin : (st.tasks t).pc.inMutation = true := by
            rcases clears_cases hclears with h | h <;> rw [h] <;> rfl
          rcases relies_cases hrel with hstoring | hreading
          · exact absurd ⟨hinst, hstoring⟩ ((hi.mutation _).outside_of_ne (t := t) ⟨rfl, hin⟩ hu)
          · rw [hg hclears u hinst] at hreading
            cases hreading
      · rw [hl.instances _ hinst]
        exact hsome
  · by_cases hu : u = t
    · rw [hu]
      exact he.found
    · rw [hl.tasks u hu]
      exact hi.found u

/-- An operation starts. -/
theorem Inv.begin (hi : Inv st) {task : Task} (hout : task.pc.inMutation = false)
    (hrel : ReadBack.relies task.pc = false) (hlost : lost task.pc = false)
    (htasks : st'.tasks = Function.update st.tasks t task)
    (hlock : ∀ i, (st'.instances i).mutationLock = (st.instances i).mutationLock)
    (htoken : ∀ i, (st'.instances i).token = (st.instances i).token) : Inv st' := by
  refine ⟨hi.mutation.begin hout htasks hlock, ?_, ?_⟩
  · simp only [State.inst]
    rw [htasks]
    refine (forall_update_iff (P := fun _ (task : Task) => ReadBack.relies task.pc = true →
      (st'.instances task.inst).token.isSome = true)).mpr ⟨fun h => ?_, fun u _ h => ?_⟩
    · rw [hrel] at h
      cases h
    · rw [htoken]
      exact hi.relies u h
  · rw [htasks]
    exact (forall_update_iff (P := fun _ (task : Task) => lost task.pc = false)).mpr
      ⟨hlost, fun u _ => hi.found u⟩

theorem Inv.run {answer : Answer} (hi : Inv st) (hg : Spares st (.step (.run t answer)))
    (h : move persistence st (.step (.run t answer)) = some st') : Inv st' := by
  refine hi.local (move_run_local h) ?_ hg
  rcases move_run_cases h with ⟨answer', hr⟩ | ⟨mutex, deadline, -, rfl⟩
  · exact runSection_effect (hi.relies t) (hi.found t) hr
  · have hgoto : Effect st (st.goto t (.rawRead (.submit ⟨mutex, false⟩))) t := .away rfl rfl
    exact { hgoto with }

theorem Inv.move {m : Move} (hi : Inv st) (hg : Spares st m)
    (h : move persistence st m = some st') : Inv st' := by
  cases m with
  | refresh t inst =>
    obtain ⟨-, rfl⟩ := callRefresh_cases h
    refine hi.begin rfl rfl rfl rfl (fun i => ?_) (fun i => ?_) <;>
      (by_cases hi : i = inst
       · subst hi
         simp
       · simp [Function.update_of_ne hi])
  | step l =>
    cases l with
    | run t answer => exact hi.run hg h
    | tick d unix =>
      cases h
      exact ⟨hi.mutation, hi.relies, hi.found⟩
    | call t inst op =>
      obtain ⟨-, rfl⟩ := step_call_cases h
      exact hi.begin (by cases op <;> rfl) (by cases op <;> rfl) (by cases op <;> rfl) rfl
        (fun _ => rfl) (fun _ => rfl)
    | reply t response =>
      refine hi.local (replySection_local h) (replySection_effect h) fun hclears => ?_
      obtain ⟨r, refreshToken, seen, hpc, -⟩ := reply_cases h
      rw [hpc] at hclears
      cases hclears
    | lapse =>
      simp only [TokenProtocol.move, step] at h
      split at h
      · split at h
        · cases h
          exact ⟨hi.mutation, hi.relies, hi.found⟩
        · cases h
      · cases h

theorem inv_init (clock : Clock) (refreshConfig : Bool) (record : Option PersistedToken)
    (cached : Nat → Bool) : Inv (init clock refreshConfig record cached) :=
  ⟨fun _ => .of_outside (by simp [init, idleTask, Pc.inMutation]), fun _ h => (by cases h),
    fun _ => rfl⟩

/-! ## After an entry is taken out -/

/-- A read-back that finds nothing in memory and nothing in the backend. -/
theorem panics (persistence : Bool) {r : Refresh} (hpc : (st.tasks t).pc = .rawRead (.stored r))
    (htoken : (st.inst t).token = none) :
    ∃ st' : State, (deployed persistence).Reach (fun _ _ => True) st st' ∧
      (st'.tasks t).pc = .panicked := by
  have hread : runSection st t .err = some (st.goto t (.rawLoad (.stored r))) := by
    simp only [runSection, hpc, htoken]
  have hload : runSection (st.goto t (.rawLoad (.stored r))) t .err =
      some (afterRaw (st.goto t (.rawLoad (.stored r))) t (.stored r) none) := by
    simp only [runSection, State.goto_pc]
  have hunbacked : ∀ {st : State} {want : Want},
      (st.tasks t).pc = .rawRead want ∨ (st.tasks t).pc = .rawLoad want →
      move persistence st (.step (.run t .err)) = runSection st t .err := by
    rintro st want (h | h) <;> cases persistence <;> simp only [TokenProtocol.move, unbackedSection,
      h, if_true, Bool.false_eq_true, if_false]
  refine ⟨_, .step (.step .refl (l := .step (.run t .err)) trivial
    ((hunbacked (.inl hpc)).trans hread)) (l := .step (.run t .err)) trivial
    ((hunbacked (.inr (State.goto_pc ..))).trans hload), ?_⟩
  rw [afterRaw, State.goto_pc]

/-- Who takes the entry out leaves none. -/
theorem cleared_token {answer : Answer} (hclears : (st.tasks t).pc.clears = true)
    (h : move persistence st (.step (.run t answer)) = some st') :
    (st'.instances (st.tasks t).inst).token = none := by
  rcases move_run_cases h with ⟨answer', hr⟩ | ⟨mutex, deadline, hpc, -⟩
  · rcases clears_cases hclears with hpc | hpc <;>
      (simp only [runSection, hpc, Option.some.injEq] at hr
       subst hr
       show (Function.update st.instances (st.tasks t).inst _ (st.tasks t).inst).token = none
       rw [Function.update_self])
  · rw [hpc] at hclears
    cases hclears

/-- A step that spares a read-back not makes its panic possible. -/
theorem panics_of_not_spared {m : Move} (hg : ¬ Spares st m)
    (h : move persistence st m = some st') :
    ∃ st'' t, (deployed persistence).Reach (fun _ _ => True) st' st'' ∧
      (st''.tasks t).pc = .panicked := by
  unfold Spares at hg
  split at hg
  · rename_i t answer
    simp only [Classical.not_imp, not_forall, Bool.not_eq_false] at hg
    obtain ⟨hclears, u, hinst, hreading⟩ := hg
    obtain ⟨r, hpc⟩ := readingBack_cases hreading
    have hut : u ≠ t := by
      rintro rfl
      rw [hpc] at hclears
      cases hclears
    have hl := move_run_local h
    have hread : (st'.tasks u).pc = .rawRead (.stored r) := by rw [hl.tasks u hut, hpc]
    have hnone : (st'.inst u).token = none := by
      rw [State.inst, hl.tasks u hut, hinst, cleared_token hclears h]
    obtain ⟨st'', hr, hp⟩ := panics persistence hread hnone
    exact ⟨st'', u, hr, hp⟩
  · exact absurd trivial hg

end ReadBack

/-! ## No panic -/

/-- **The read-back finds a token unless it is taken out.** With or without a
backend, on any number of instances and against any answers, in every run in
which nobody takes the session's entry out of an instance's memory while a
refresh there is about to read it back, no refresh panics. Any such step of such
a run may be followed by a panic. -/
theorem panic_free_of_spared (persistence : Bool) (clock : Clock) (refreshConfig : Bool)
    (record : Option PersistedToken) (cached : Nat → Bool) (st : State)
    (hr : (deployed persistence).Reach Spares (init clock refreshConfig record cached) st) :
    (∀ t, (st.tasks t).pc ≠ .panicked) ∧
      ∀ m st', ¬ Spares st m → (deployed persistence).step st m = some st' →
        ∃ st'' t, (deployed persistence).Reach (fun _ _ => True) st' st'' ∧
          (st''.tasks t).pc = .panicked := by
  have hi := hr.invariant (ReadBack.inv_init clock refreshConfig record cached)
    fun _ _ _ hi hg hs => hi.move hg hs
  refine ⟨fun t hpc => ?_, fun m st' hg hs => ReadBack.panics_of_not_spared hg hs⟩
  have hfound := hi.found t
  rw [hpc] at hfound
  cases hfound

namespace ReadBack

/-- Nothing is taken out of memory at all. -/
def clearsNothing (st : State) : Move → Bool
  | .step (.run t _) => !(st.tasks t).pc.clears
  | _ => true

theorem spares_of_clearsNothing {m : Move} (h : clearsNothing st m = true) : Spares st m := by
  cases m with
  | refresh t inst => trivial
  | step l =>
    cases l with
    | run t answer =>
      intro hclears
      simp [clearsNothing, hclears] at h
    | _ => trivial

def sections (t n : Nat) : List Move := List.replicate n (.step (.run t .ok))

/-- A token that is expired is stored, and a `get_token` refreshes it; all but
the read-back. -/
def renewing : List Move :=
  .step (.call 0 0 (.store ⟨"a1", some "r1", some 0⟩)) :: sections 0 3 ++
    .step (.call 1 0 .get) :: sections 1 7 ++
    .step (.reply 1 (some ⟨some "a2", some "r2", some 60⟩)) :: sections 1 3

end ReadBack

open ReadBack in
/-- A purge that comes before the read-back finds nothing to purge. -/
theorem panic_free_of_spared_while_purging :
    ∃ st : State, (∀ t, (st.tasks t).pc ≠ .panicked) ∧
      (st.tasks 1).pc = .done (some ⟨"a2", some "r2", some (Duration.fromSecs 60)⟩) := by
  obtain ⟨st, hr, hp⟩ := System.exists_reach_of_run (S := deployed false)
    (G := fun st m => clearsNothing st m = true)
    (s := init ⟨0, 0⟩ true none fun _ => false)
    (w := renewing ++ .step (.call 2 0 .purge) :: sections 2 2 ++ sections 1 2)
    (p := fun st => decide ((st.tasks 1).pc =
      .done (some ⟨"a2", some "r2", some (Duration.fromSecs 60)⟩))) (by decide +kernel)
  have hspared := hr.mono fun _ _ => spares_of_clearsNothing
  exact ⟨st, (panic_free_of_spared _ _ _ _ _ st hspared).1, of_decide_eq_true hp⟩

open ReadBack in
/-- The session is forgotten when a refresh has stored its token and has not
read it back. -/
theorem removal_panics_refresh :
    ¬ ∀ (persistence : Bool) (clock : Clock) (refreshConfig : Bool)
      (record : Option PersistedToken) (cached : Nat → Bool) (st : State),
      (deployed persistence).Reach (fun _ _ => True) (init clock refreshConfig record cached) st →
        ∀ t, (st.tasks t).pc ≠ .panicked := by
  intro h
  obtain ⟨st, hr, hp⟩ := System.exists_reach_of_run (S := deployed false)
    (G := fun _ _ => True) (s := init ⟨0, 0⟩ true none fun _ => false)
    (w := renewing ++ .step (.call 2 0 .remove) :: sections 2 2 ++ sections 1 2)
    (p := fun st => decide ((st.tasks 1).pc = .panicked)) (by decide +kernel)
  exact h _ _ _ _ _ st hr 1 (of_decide_eq_true hp)

end McpFramework.TokenProtocol
